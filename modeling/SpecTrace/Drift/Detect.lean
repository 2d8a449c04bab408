import Mathlib.Data.List.Sort
import Mathlib.Data.List.Dedup
import SpecTrace.Drift.Extract
import SpecTrace.Python.Json

/-! The drift detector of `spec_diff.py`. `build_section_infos` hashes every section body
and compares the digest with the `hash` stored for the section's title in the previous
report's `sections`; `main` then lists the titles that are new and the ones that were
removed, and writes the sections back as `{s.title: asdict(s) for s in sections}`, which is
the next run's snapshot. The hash (`sha256`, as a hex digest) is a parameter.

Proved: against previous sections that map titles to objects the detector succeeds, the
new and the removed titles split the two title sets, a new section is never changed, and a
changed section has a stored hash that differs from its digest. Against the snapshot of a
run on a text with distinct titles, a text with the same titles is compared section by
section with the first: replacing the body lines of one section flags that section alone,
exactly when its digest changes. With a repeated title the snapshot keeps the last section of
that title only, and a second run on the same text flags an earlier one. -/

namespace SpecTrace.Drift

open Python

/-! ### `build_section_infos` -/

/-- `SectionInfo`. -/
structure SectionInfo where
  title : List Char
  hash : List Char
  changed : Bool
  deriving DecidableEq

section Hash

variable (hash : List Char → List Char)

/-- `previous.get(title, {}).get("hash") if previous else None`. -/
def storedHash (previous : JsonValue) (title : List Char) : Except PyError JsonValue :=
  if previous.truthy then
    (previous.get (ofChars title) (.dict [])).bind fun entry => entry.get (pyStr "hash") .null
  else .ok .null

/-- One iteration of `build_section_infos`. -/
def sectionInfo (previous : JsonValue) (sec : List Char × List Char) : Except PyError SectionInfo :=
  (storedHash previous sec.1).map fun prevHash =>
    ⟨sec.1, hash sec.2, !prevHash.isNone && differsFromStr prevHash (hash sec.2)⟩

/-- `build_section_infos(spec_content, previous)`. -/
def buildSectionInfos (specContent : List Char) (previous : JsonValue) :
    Except PyError (List SectionInfo) :=
  (extractSections specContent).mapM (sectionInfo hash previous)

/-- `a <= b` on `str`: lexicographic by code point. -/
def strLe : List PyChar → List PyChar → Bool
  | [], _ => true
  | _ :: _, [] => false
  | c :: a, d :: b => if c = d then strLe a b else decide (c.toNat < d.toNat)

/-- `sorted(list(a - b))` for the sets of the titles in `a` and in `b`. -/
def sortedDiff (a b : List (List PyChar)) : List (List PyChar) :=
  ((a.filter fun t => decide (t ∉ b)).dedup).insertionSort fun s t => strLe s t = true

/-- What `main` computes of the drift: the section infos, `new_sections` and
`removed_sections`. -/
structure DriftResult where
  sections : List SectionInfo
  newSections : List (List PyChar)
  removedSections : List (List PyChar)

/-- The drift of `spec_text` against the previous sections `prev`. -/
def detectDrift (specText : List Char) (prev : JsonValue) : Except PyError DriftResult :=
  (buildSectionInfos hash specText prev).bind fun sections =>
    (if prev.truthy then prev.keys else .ok []).map fun prevTitles =>
      let currentTitles := sections.map (ofChars ·.title)
      ⟨sections, sortedDiff currentTitles prevTitles, sortedDiff prevTitles currentTitles⟩

end Hash

/-- `asdict(s)`. -/
def SectionInfo.asdict (s : SectionInfo) : JsonValue :=
  .dict [(pyStr "title", .str (ofChars s.title)), (pyStr "hash", .str (ofChars s.hash)),
    (pyStr "changed", .bool s.changed)]

/-- `d[k] = v`: a present key keeps its place and takes the new value. -/
def dictSet (d : List (List PyChar × JsonValue)) (k : List PyChar) (v : JsonValue) :
    List (List PyChar × JsonValue) :=
  if k ∈ d.map Prod.fst then d.map fun e => if e.1 = k then (k, v) else e else d ++ [(k, v)]

/-- `{s.title: asdict(s) for s in sections}`. -/
def sectionsDict (sections : List SectionInfo) : List (List PyChar × JsonValue) :=
  sections.foldl (fun d s => dictSet d (ofChars s.title) s.asdict) []

/-! ### `d[k] = v` -/

theorem dictSet_of_not_mem {d : List (List PyChar × JsonValue)} {k : List PyChar}
    (h : k ∉ d.map Prod.fst) (v : JsonValue) : dictSet d k v = d ++ [(k, v)] :=
  if_neg h

theorem nodup_dictSet {d : List (List PyChar × JsonValue)} (h : (d.map Prod.fst).Nodup)
    (k : List PyChar) (v : JsonValue) : ((dictSet d k v).map Prod.fst).Nodup := by
  by_cases hk : k ∈ d.map Prod.fst
  · rw [dictSet, if_pos hk, List.map_map]
    refine (List.map_congr_left fun e _ => ?_).symm ▸ h
    by_cases he : e.1 = k <;> simp [he]
  · rw [dictSet_of_not_mem hk, List.map_append]
    exact List.nodup_append.mpr ⟨h, List.nodup_singleton k,
      fun x hx hx' => hk (by rwa [List.mem_singleton.mp hx'] at hx)⟩

theorem mem_dictSet {d : List (List PyChar × JsonValue)} {k : List PyChar} {v : JsonValue}
    {e : List PyChar × JsonValue} (he : e ∈ dictSet d k v) : e ∈ d ∨ e = (k, v) := by
  unfold dictSet at he
  split_ifs at he
  · obtain ⟨e', he', rfl⟩ := List.mem_map.mp he
    by_cases h : e'.1 = k
    · exact .inr (if_pos h)
    · exact .inl (by rwa [if_neg h])
  · exact List.mem_append.mp he |>.imp_right List.mem_singleton.mp

theorem nodup_sectionsDict (infos : List SectionInfo) : ((sectionsDict infos).map Prod.fst).Nodup := by
  suffices ∀ d, (d.map Prod.fst).Nodup →
      ((infos.foldl (fun d s => dictSet d (ofChars s.title) s.asdict) d).map Prod.fst).Nodup from
    this [] List.nodup_nil
  induction infos with
  | nil => exact fun _ h => h
  | cons s infos ih => exact fun d h => ih _ (nodup_dictSet h _ _)

theorem mem_foldl_dictSet {infos : List SectionInfo} {d : List (List PyChar × JsonValue)}
    {e : List PyChar × JsonValue}
    (he : e ∈ infos.foldl (fun d s => dictSet d (ofChars s.title) s.asdict) d) :
    e ∈ d ∨ ∃ s ∈ infos, e.2 = s.asdict := by
  induction infos generalizing d with
  | nil => exact .inl he
  | cons s infos ih =>
    rcases ih he with he | ⟨s', hs', h⟩
    · rcases mem_dictSet he with he | rfl
      · exact .inl he
      · exact .inr ⟨s, .head _, rfl⟩
    · exact .inr ⟨s', .tail _ hs', h⟩

theorem mem_sectionsDict {infos : List SectionInfo} {e : List PyChar × JsonValue}
    (he : e ∈ sectionsDict infos) : ∃ s ∈ infos, e.2 = s.asdict :=
  (mem_foldl_dictSet he).resolve_left (List.not_mem_nil _)

/-! ### Runs of `mapM` in `Except` -/

theorem forall₂_of_mapM_eq_ok {α β ε : Type} {f : α → Except ε β} {l : List α} {bs : List β}
    (h : l.mapM f = .ok bs) : List.Forall₂ (fun a b => f a = .ok b) l bs := by
  induction l generalizing bs with
  | nil => cases h; exact .nil
  | cons a l ih =>
    rw [List.mapM_cons] at h
    cases hf : f a with
    | error e => rw [hf] at h; cases h
    | ok b =>
      cases hl : l.mapM f with
      | error e => rw [hf, hl] at h; cases h
      | ok bs' =>
        rw [hf, hl] at h
        cases h
        exact .cons hf (ih hl)

theorem mapM_eq_ok_of_forall₂ {α β ε : Type} {f : α → Except ε β} {l : List α} {bs : List β}
    (h : List.Forall₂ (fun a b => f a = .ok b) l bs) : l.mapM f = .ok bs := by
  induction h with
  | nil => rfl
  | cons hab _ ih => rw [List.mapM_cons, hab, ih]; rfl

theorem exists_forall₂_of_ok {α β ε : Type} {f : α → Except ε β} {l : List α}
    (h : ∀ a ∈ l, ∃ b, f a = .ok b) : ∃ bs, List.Forall₂ (fun a b => f a = .ok b) l bs := by
  induction l with
  | nil => exact ⟨[], .nil⟩
  | cons a l ih =>
    obtain ⟨b, hb⟩ := h a (List.mem_cons_self a l)
    obtain ⟨bs, hbs⟩ := ih fun a' ha' => h a' (List.mem_cons_of_mem a ha')
    exact ⟨b :: bs, .cons hb hbs⟩

theorem exists_of_forall₂_of_mem {α β : Type} {R : α → β → Prop} {l : List α} {bs : List β}
    (h : List.Forall₂ R l bs) {b : β} (hb : b ∈ bs) : ∃ a ∈ l, R a b := by
  induction h with
  | nil => cases hb
  | cons hab _ ih =>
    rcases List.mem_cons.mp hb with rfl | hb
    · exact ⟨_, List.mem_cons_self _ _, hab⟩
    · obtain ⟨a, ha, hr⟩ := ih hb
      exact ⟨a, List.mem_cons_of_mem _ ha, hr⟩

theorem map_eq_of_forall₂ {α β γ : Type} {f : α → γ} {g : β → γ} {l : List α} {bs : List β}
    (h : List.Forall₂ (fun a b => g b = f a) l bs) : bs.map g = l.map f := by
  induction h with
  | nil => rfl
  | cons hab _ ih => rw [List.map_cons, List.map_cons, hab, ih]

/-! ### One section against previous sections -/

section Hash

variable (hash : List Char → List Char)

theorem mem_keys_of_lookup {α β : Type} [DecidableEq α] {entries : List (List α × β)} {t : List α}
    {v : β} (h : entries.lookup t = some v) : (t, v) ∈ entries := by
  obtain ⟨l₁, l₂, rfl, -⟩ := List.lookup_eq_some_iff.mp h
  simp

theorem storedHash_of_lookup {entries : List (List PyChar × JsonValue)} {t : List Char}
    {o : List (List PyChar × JsonValue)} (h : entries.lookup (ofChars t) = some (.dict o)) :
    storedHash (.dict entries) t = .ok ((o.lookup (pyStr "hash")).getD .null) := by
  have hne : entries ≠ [] := by rintro rfl; cases h
  simp [storedHash, JsonValue.truthy, hne, JsonValue.get, h, Except.bind]

theorem storedHash_of_lookup_none {entries : List (List PyChar × JsonValue)} {t : List Char}
    (h : entries.lookup (ofChars t) = none) : storedHash (.dict entries) t = .ok .null := by
  unfold storedHash
  split
  · simp [JsonValue.get, h, Except.bind]
  · rfl

theorem sectionInfo_ok {entries : List (List PyChar × JsonValue)}
    (hobj : ∀ e ∈ entries, ∃ o, e.2 = .dict o) (sec : List Char × List Char) :
    ∃ s, sectionInfo hash (.dict entries) sec = .ok s := by
  cases hl : entries.lookup (ofChars sec.1) with
  | none => exact ⟨_, by rw [sectionInfo, storedHash_of_lookup_none hl]; rfl⟩
  | some v =>
    obtain ⟨o, ho⟩ := hobj _ (mem_keys_of_lookup hl)
    simp only at ho
    subst ho
    exact ⟨_, by rw [sectionInfo, storedHash_of_lookup hl]; rfl⟩

theorem sectionInfo_title_hash {prev : JsonValue} {sec : List Char × List Char} {s : SectionInfo}
    (h : sectionInfo hash prev sec = .ok s) : s.title = sec.1 ∧ s.hash = hash sec.2 := by
  unfold sectionInfo at h
  cases hv : storedHash prev sec.1 <;> rw [hv] at h <;> cases h
  exact ⟨rfl, rfl⟩

theorem sectionInfo_spec {entries : List (List PyChar × JsonValue)} {sec : List Char × List Char}
    {s : SectionInfo} (h : sectionInfo hash (.dict entries) sec = .ok s) :
    s.title = sec.1 ∧ s.hash = hash sec.2 ∧
      (s.changed = true → ∃ o, entries.lookup (ofChars sec.1) = some (.dict o) ∧
        ∃ v, o.lookup (pyStr "hash") = some v ∧ v.isNone = false ∧ differsFromStr v s.hash = true) := by
  unfold sectionInfo at h
  cases hv : storedHash (.dict entries) sec.1 with
  | error e => rw [hv] at h; cases h
  | ok v =>
    rw [hv] at h
    cases h
    refine ⟨rfl, rfl, fun hc => ?_⟩
    simp only [Bool.and_eq_true, Bool.not_eq_true'] at hc
    cases hl : entries.lookup (ofChars sec.1) with
    | none => rw [storedHash_of_lookup_none hl] at hv; cases hv; cases hc.1
    | some w =>
      cases w with
      | dict o =>
        rw [storedHash_of_lookup hl] at hv
        cases hv
        cases ho : o.lookup (pyStr "hash") with
        | none => rw [ho] at hc; cases hc.1
        | some v => rw [ho] at hc; exact ⟨o, rfl, v, ho, hc⟩
      | _ =>
        have hne : entries ≠ [] := by rintro rfl; cases hl
        simp [storedHash, JsonValue.truthy, hne, JsonValue.get, hl, Except.bind] at hv

/-! ### New and removed titles -/

theorem mem_sortedDiff {a b : List (List PyChar)} {t : List PyChar} :
    t ∈ sortedDiff a b ↔ t ∈ a ∧ t ∉ b := by
  simp [sortedDiff, (List.perm_insertionSort _ _).mem_iff, List.mem_dedup]

theorem prevTitles_dict (entries : List (List PyChar × JsonValue)) :
    (if (JsonValue.dict entries).truthy then (JsonValue.dict entries).keys else .ok []) =
      (.ok (entries.map Prod.fst) : Except PyError _) := by
  cases entries <;> rfl

theorem detectDrift_dict {specText : List Char} {entries : List (List PyChar × JsonValue)}
    {infos : List SectionInfo} (h : buildSectionInfos hash specText (.dict entries) = .ok infos) :
    detectDrift hash specText (.dict entries) =
      .ok ⟨infos, sortedDiff (infos.map (ofChars ·.title)) (entries.map Prod.fst),
        sortedDiff (entries.map Prod.fst) (infos.map (ofChars ·.title))⟩ := by
  rw [detectDrift, h]
  show Except.map _ (if (JsonValue.dict entries).truthy then _ else _) = _
  rw [prevTitles_dict]
  rfl

/-! ### Drift classification -/

/-- Against previous sections that map titles to objects the detector succeeds, with `new_sections`
and `removed_sections` the two sorted differences, and a section is changed only against a stored hash. -/
theorem detectDrift_partition (specText : List Char) (entries : List (List PyChar × JsonValue))
    (hobj : ∀ e ∈ entries, ∃ o, e.2 = .dict o) :
    ∃ d, detectDrift hash specText (.dict entries) = .ok d ∧
      d.sections.map (fun s => (s.title, s.hash)) =
        (extractSections specText).map (fun sec => (sec.1, hash sec.2)) ∧
      d.newSections = sortedDiff (d.sections.map (ofChars ·.title)) (entries.map Prod.fst) ∧
      d.removedSections = sortedDiff (entries.map Prod.fst) (d.sections.map (ofChars ·.title)) ∧
      d.newSections.Disjoint d.removedSections ∧
      (∀ s ∈ d.sections, ofChars s.title ∈ d.newSections ∨ ofChars s.title ∈ entries.map Prod.fst) ∧
      (∀ k ∈ entries.map Prod.fst, k ∈ d.removedSections ∨ k ∈ d.sections.map (ofChars ·.title)) ∧
      (∀ s ∈ d.sections, ofChars s.title ∈ d.newSections → s.changed = false) ∧
      (∀ s ∈ d.sections, s.changed = true → ∃ o, entries.lookup (ofChars s.title) = some (.dict o) ∧
        ∃ v, o.lookup (pyStr "hash") = some v ∧ v.isNone = false ∧ differsFromStr v s.hash = true) := by
  obtain ⟨infos, hinfos⟩ : ∃ infos, List.Forall₂
      (fun sec s => sectionInfo hash (.dict entries) sec = .ok s) (extractSections specText) infos :=
    exists_forall₂_of_ok fun sec _ => sectionInfo_ok hash hobj sec
  have hspec := hinfos.imp fun _ _ h => sectionInfo_spec hash h
  have hkey : ∀ s ∈ infos, s.changed = true → ∃ o, entries.lookup (ofChars s.title) = some (.dict o) ∧
      ∃ v, o.lookup (pyStr "hash") = some v ∧ v.isNone = false ∧ differsFromStr v s.hash = true :=
    fun s hs hc => by
      obtain ⟨sec, -, htitle, -, hch⟩ := exists_of_forall₂_of_mem hspec hs
      rw [htitle]
      exact hch hc
  refine ⟨_, detectDrift_dict hash (mapM_eq_ok_of_forall₂ hinfos),
    map_eq_of_forall₂ (hspec.imp fun _ _ h => by rw [h.1, h.2.1]), rfl, rfl,
    fun t h₁ h₂ => (mem_sortedDiff.mp h₁).2 (mem_sortedDiff.mp h₂).1, fun s hs => ?_,
    fun k hk => ?_, fun s hs hnew => ?_, hkey⟩
  · by_cases hk : ofChars s.title ∈ entries.map Prod.fst
    · exact .inr hk
    · exact .inl (mem_sortedDiff.mpr ⟨List.mem_map_of_mem (ofChars ·.title) hs, hk⟩)
  · by_cases hc : k ∈ infos.map (ofChars ·.title)
    · exact .inr hc
    · exact .inl (mem_sortedDiff.mpr ⟨hk, hc⟩)
  · rw [Bool.eq_false_iff]
    intro hc
    obtain ⟨o, hl, -⟩ := hkey s hs hc
    exact (mem_sortedDiff.mp hnew).2 (List.mem_map_of_mem Prod.fst (mem_keys_of_lookup hl))

theorem detectDrift_partition_stored_section :
    ∃ (_ : ∀ e ∈ [(pyStr "A", JsonValue.dict [(pyStr "hash", .str (pyStr "0"))])], ∃ o, e.2 = .dict o),
      ∃ d, detectDrift id "## A\nbody\n## B\n".toList
        (.dict [(pyStr "A", .dict [(pyStr "hash", .str (pyStr "0"))])]) = .ok d :=
  have hobj : ∀ e ∈ [(pyStr "A", JsonValue.dict [(pyStr "hash", .str (pyStr "0"))])],
      ∃ o, e.2 = .dict o := by
    intro e he
    rw [List.mem_singleton.mp he]
    exact ⟨_, rfl⟩
  ⟨hobj, (detectDrift_partition id _ _ hobj).imp fun _ h => h.1⟩

/-! ### The next run against the snapshot -/

theorem lookup_of_mem_of_nodup {α β : Type} [DecidableEq α] {entries : List (List α × β)}
    (hnd : (entries.map Prod.fst).Nodup) {k : List α} {v : β} (h : (k, v) ∈ entries) :
    entries.lookup k = some v := by
  obtain ⟨l₁, l₂, rfl⟩ := List.append_of_mem h
  refine List.lookup_eq_some_iff.mpr ⟨l₁, l₂, rfl, fun p hp => ?_⟩
  have hk : k ∉ l₁.map Prod.fst := by
    simp only [List.map_append, List.map_cons] at hnd
    exact fun hk => List.disjoint_of_nodup_append hnd hk (List.mem_cons_self k _)
  simpa using fun he : k = p.1 => hk (he ▸ List.mem_map_of_mem Prod.fst hp)

theorem sectionsDict_of_nodup {infos : List SectionInfo} (hnd : (infos.map (·.title)).Nodup) :
    sectionsDict infos = infos.map fun s => (ofChars s.title, s.asdict) := by
  induction infos using List.reverseRecOn with
  | nil => rfl
  | append_singleton infos s ih =>
    rw [List.map_append, List.nodup_append] at hnd
    have hs : ofChars s.title ∉ (sectionsDict infos).map Prod.fst := by
      rw [ih hnd.1, List.map_map]
      intro h
      obtain ⟨s', hs', he⟩ := List.mem_map.mp h
      exact hnd.2.2 (List.mem_map_of_mem _ hs') (List.mem_singleton.mpr (ofChars_injective he))
    rw [sectionsDict, List.foldl_append, ← sectionsDict, List.foldl_cons, List.foldl_nil, dictSet,
      if_neg hs, ih hnd.1, List.map_append]
    rfl

theorem sectionInfo_of_stored {entries : List (List PyChar × JsonValue)} {sec : List Char × List Char}
    {s₁ : SectionInfo} (h : entries.lookup (ofChars sec.1) = some s₁.asdict) :
    sectionInfo hash (.dict entries) sec = .ok ⟨sec.1, hash sec.2, s₁.hash != hash sec.2⟩ := by
  rw [sectionInfo, storedHash_of_lookup h]
  exact congrArg (fun b => (.ok ⟨sec.1, hash sec.2, b⟩ : Except PyError SectionInfo)) (ofChars_bne _ _)

theorem sortedDiff_self (a : List (List PyChar)) : sortedDiff a a = [] :=
  List.eq_nil_iff_forall_not_mem.mpr fun _ ht => (mem_sortedDiff.mp ht).2 (mem_sortedDiff.mp ht).1

section Snapshot

variable {text₁ : List Char} {P₀ : JsonValue} {infos₁ : List SectionInfo}
  (hrun : buildSectionInfos hash text₁ P₀ = .ok infos₁)
  (hdist : ((extractSections text₁).map Prod.fst).Nodup)
include hrun hdist

/-- The snapshot of a run on a text with distinct titles has the text's titles as keys, and
under the title of each section an info with the section's digest. -/
theorem snapshot_of_run :
    (sectionsDict infos₁).map Prod.fst = (extractSections text₁).map (ofChars ·.1) ∧
      ∀ sec₁ ∈ extractSections text₁, ∃ c,
        (ofChars sec₁.1, SectionInfo.asdict ⟨sec₁.1, hash sec₁.2, c⟩) ∈ sectionsDict infos₁ := by
  have hrun₁ := (forall₂_of_mapM_eq_ok hrun).imp fun _ _ h => sectionInfo_title_hash hash h
  have hinfos₁ : infos₁.map (·.title) = (extractSections text₁).map Prod.fst :=
    map_eq_of_forall₂ (hrun₁.imp fun _ _ h => h.1)
  rw [sectionsDict_of_nodup (hinfos₁ ▸ hdist), List.map_map]
  refine ⟨by simpa [Function.comp_def] using congrArg (List.map ofChars) hinfos₁, fun sec₁ hsec₁ => ?_⟩
  obtain ⟨s, hs, ht, hh⟩ := exists_of_forall₂_of_mem hrun₁.flip hsec₁
  exact ⟨s.changed, List.mem_map.mpr ⟨s, hs, by rw [← ht, ← hh]⟩⟩

theorem sectionInfo_against_snapshot {sec₁ : List Char × List Char}
    (hsec₁ : sec₁ ∈ extractSections text₁) (body : List Char) :
    sectionInfo hash (.dict (sectionsDict infos₁)) (sec₁.1, body) =
      .ok ⟨sec₁.1, hash body, hash sec₁.2 != hash body⟩ := by
  obtain ⟨hkeys, hmem⟩ := snapshot_of_run hash hrun hdist
  obtain ⟨c, hc⟩ := hmem sec₁ hsec₁
  have hnd : ((extractSections text₁).map (ofChars ·.1)).Nodup := by
    simpa [Function.comp_def] using hdist.map ofChars_injective
  exact @sectionInfo_of_stored hash _ (sec₁.1, body) ⟨sec₁.1, hash sec₁.2, c⟩
    (lookup_of_mem_of_nodup (hkeys ▸ hnd) hc)

/-- Against the snapshot of a run on a text with distinct titles, a text with the same titles is
compared section by section with the first. -/
theorem detectDrift_rerun {text₂ : List Char}
    (htitles : (extractSections text₂).map Prod.fst = (extractSections text₁).map Prod.fst) :
    detectDrift hash text₂ (.dict (sectionsDict infos₁)) =
      .ok ⟨(extractSections text₂).map fun sec =>
          ⟨sec.1, hash sec.2, hash (((extractSections text₁).lookup sec.1).getD []) != hash sec.2⟩,
        [], []⟩ := by
  have hinfo : ∀ sec ∈ extractSections text₂, sectionInfo hash (.dict (sectionsDict infos₁)) sec =
      .ok ⟨sec.1, hash sec.2, hash (((extractSections text₁).lookup sec.1).getD []) != hash sec.2⟩ := by
    rintro ⟨t, b⟩ hsec
    obtain ⟨sec₁, hsec₁, rfl⟩ := List.mem_map.mp (htitles ▸ List.mem_map_of_mem Prod.fst hsec)
    rw [lookup_of_mem_of_nodup hdist hsec₁]
    exact sectionInfo_against_snapshot hash hrun hdist hsec₁ b
  have hmap := mapM_eq_ok_of_forall₂ (List.forall₂_map_right_iff.mpr (List.forall₂_same.mpr hinfo))
  have hkeys : (extractSections text₂).map (ofChars ·.1) = (extractSections text₁).map (ofChars ·.1) := by
    simpa [Function.comp_def] using congrArg (List.map ofChars) htitles
  rw [detectDrift_dict hash hmap, List.map_map, (snapshot_of_run hash hrun hdist).1]
  simp only [Function.comp_def, hkeys, sortedDiff_self]

end Snapshot

theorem mem_of_mem_edit {P Q : List (List Char × List (List Char))} {x : List Char}
    {R R' : List (List Char)} {sec : List Char × List Char}
    (hsec : sec ∈ (P ++ (x, R') :: Q).map fun s => (s.1, sectionBody s.2)) (hx : sec.1 ≠ x) :
    sec ∈ (P ++ (x, R) :: Q).map fun s => (s.1, sectionBody s.2) := by
  simp only [List.map_append, List.map_cons, List.mem_append, List.mem_cons] at hsec ⊢
  rcases hsec with h | rfl | h
  · exact .inl h
  · exact absurd rfl hx
  · exact .inr (.inr h)

/-- Editing the body lines of one section `x` of a text with distinct titles: against the snapshot
of a run on the first text, only `x` can be changed, exactly when its body's digest changes. -/
theorem detectDrift_edit_section {text₁ text₂ : List Char} {A R R' C : List (List Char)}
    {h x : List Char} (h₁ : splitlines text₁ = A ++ h :: (R ++ C))
    (h₂ : splitlines text₂ = A ++ h :: (R' ++ C)) (hh : headingTitle h = some x)
    (hR : ∀ l ∈ R, headingTitle l = none) (hR' : ∀ l ∈ R', headingTitle l = none)
    (hC : ∀ c ∈ C.head?, (headingTitle c).isSome)
    (hdist : ((extractSections text₁).map Prod.fst).Nodup)
    {P₀ : JsonValue} {infos₁ : List SectionInfo} (hrun : buildSectionInfos hash text₁ P₀ = .ok infos₁) :
    detectDrift hash text₂ (.dict (sectionsDict infos₁)) =
      .ok ⟨(extractSections text₂).map fun sec =>
          ⟨sec.1, hash sec.2, sec.1 == x && hash (sectionBody R) != hash (sectionBody R')⟩, [], []⟩ := by
  have hE₁ := extractSections_of_splitlines h₁ hh hR hC
  have hE₂ := extractSections_of_splitlines h₂ hh hR' hC
  have htitles : (extractSections text₂).map Prod.fst = (extractSections text₁).map Prod.fst := by
    simp [hE₁, hE₂, Function.comp_def]
  have hnd₂ : ((extractSections text₂).map Prod.fst).Nodup := htitles ▸ hdist
  rw [detectDrift_rerun hash hrun hdist htitles]
  refine congrArg (fun l => (Except.ok ⟨l, [], []⟩ : Except PyError DriftResult))
    (List.map_congr_left fun sec hsec => ?_)
  congr 1
  by_cases hx : sec.1 = x
  · -- the edited section: its two bodies are those of the two texts under `x`
    have hb₂ : sec.2 = sectionBody R' := Option.some.inj <|
      (lookup_of_mem_of_nodup hnd₂ (show (x, sec.2) ∈ _ by rw [← hx]; exact hsec)).symm.trans
        (lookup_of_mem_of_nodup hnd₂ (by rw [hE₂]; simp))
    rw [hx, lookup_of_mem_of_nodup hdist (show (x, sectionBody R) ∈ _ by rw [hE₁]; simp), hb₂]
    simp
  · -- any other section is a section of the first text
    have hsec₁ : sec ∈ extractSections text₁ := by
      rw [hE₂] at hsec
      rw [hE₁]
      exact mem_of_mem_edit hsec hx
    rw [lookup_of_mem_of_nodup hdist hsec₁]
    simp [hx]

theorem detectDrift_edit_section_one_line :
    detectDrift id "## A\nnew\n## B\nb\n".toList
        (.dict (sectionsDict [⟨"A".toList, "old".toList, false⟩, ⟨"B".toList, "b".toList, false⟩])) =
      .ok ⟨(extractSections "## A\nnew\n## B\nb\n".toList).map fun sec =>
          ⟨sec.1, id sec.2, sec.1 == "A".toList &&
            id (sectionBody ["old".toList]) != id (sectionBody ["new".toList])⟩, [], []⟩ :=
  detectDrift_edit_section id
    (show splitlines "## A\nold\n## B\nb\n".toList =
      [] ++ "## A".toList :: (["old".toList] ++ ["## B".toList, "b".toList]) by decide)
    (show splitlines "## A\nnew\n## B\nb\n".toList =
      [] ++ "## A".toList :: (["new".toList] ++ ["## B".toList, "b".toList]) by decide)
    (show headingTitle "## A".toList = some "A".toList by decide)
    (by decide) (by decide) (by decide) (by decide)
    (show buildSectionInfos id "## A\nold\n## B\nb\n".toList (.dict []) =
      .ok [⟨"A".toList, "old".toList, false⟩, ⟨"B".toList, "b".toList, false⟩] from rfl)

/-- A title used twice: the snapshot keeps the second section's digest, and the rerun flags the
first section unless the two digests collide. -/
theorem rerun_flags_repeated_title :
    hash "x".toList = hash "y".toList ∨
      ∃ d₁ d₂, detectDrift hash "## A\nx\n## A\ny\n".toList (.dict []) = .ok d₁ ∧
        detectDrift hash "## A\nx\n## A\ny\n".toList (.dict (sectionsDict d₁.sections)) = .ok d₂ ∧
        d₂.sections.map (·.changed) = [true, false] := by
  by_cases hxy : hash "x".toList = hash "y".toList
  · exact .inl hxy
  · right
    have hE : extractSections "## A\nx\n## A\ny\n".toList =
        [("A".toList, "x".toList), ("A".toList, "y".toList)] := by decide
    have hrun₁ : buildSectionInfos hash "## A\nx\n## A\ny\n".toList (.dict []) =
        .ok [⟨"A".toList, hash "x".toList, false⟩, ⟨"A".toList, hash "y".toList, false⟩] := by
      rw [buildSectionInfos, hE]; rfl
    have hdict : sectionsDict [⟨"A".toList, hash "x".toList, false⟩, ⟨"A".toList, hash "y".toList, false⟩] =
        [(pyStr "A", SectionInfo.asdict ⟨"A".toList, hash "y".toList, false⟩)] := rfl
    have hrun₂ : buildSectionInfos hash "## A\nx\n## A\ny\n".toList
        (.dict [(pyStr "A", SectionInfo.asdict ⟨"A".toList, hash "y".toList, false⟩)]) =
        .ok [⟨"A".toList, hash "x".toList, ofChars (hash "y".toList) != ofChars (hash "x".toList)⟩,
          ⟨"A".toList, hash "y".toList, ofChars (hash "y".toList) != ofChars (hash "y".toList)⟩] := by
      rw [buildSectionInfos, hE]; rfl
    have hyx : hash ['y'] ≠ hash ['x'] := Ne.symm hxy
    exact ⟨_, _, detectDrift_dict hash hrun₁, by rw [hdict]; exact detectDrift_dict hash hrun₂,
      by simp [hyx]⟩

/-- The same with the digest the identity: the rerun flags the first section. -/
theorem repeated_title_flagged_on_rerun :
    ∃ d₁ d₂, detectDrift id "## A\nx\n## A\ny\n".toList (.dict []) = .ok d₁ ∧
      detectDrift id "## A\nx\n## A\ny\n".toList (.dict (sectionsDict d₁.sections)) = .ok d₂ ∧
      d₂.sections.map (·.changed) = [true, false] :=
  (rerun_flags_repeated_title id).resolve_left (by decide)

end Hash

end SpecTrace.Drift
