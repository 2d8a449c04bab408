import Mathlib.Data.Char
import SpecTrace.Drift.Detect

/-! What a run of `spec_diff.py` compares the specification with. The snapshot is the `sections`
object of the last JSON report, `{s.title: asdict(s) for s in sections}` of the run that wrote
it; `driftAgainst old text` says the same of the two texts without JSON: a section is new when
`old` has no section of its title, a title is removed when `text` has none, and a section is
changed when the last section of `old` under its title, the one the dict comprehension keeps,
has another digest.

Proved: `detectDrift` against the snapshot of a run on `old` is `driftAgainst old`, for any two
texts, repeated titles included (`detectDrift_snapshot`), and the run's own sections are then
the snapshot of its text. On the way: `sorted(list(a - b))` depends on the members of `a` and
`b` only, since `strLe` is a total order (`sortedDiff_congr_left`), and the snapshot keeps under
each title the last section info of that title (`lookup_sectionsDict`). -/

namespace SpecTrace.Drift

open Python

/-! ### The order of `str` -/

theorem strLe_total : ∀ a b : List PyChar, strLe a b = true ∨ strLe b a = true
  | [], _ => .inl rfl
  | _ :: _, [] => .inr rfl
  | c :: a, d :: b => by
    by_cases h : c = d
    · subst h
      simpa only [strLe, if_pos rfl] using strLe_total a b
    · rcases lt_or_gt_of_ne (PyChar.toNat_injective.ne h) with h' | h'
      · exact .inl (by simp [strLe, h, h'])
      · exact .inr (by simp [strLe, Ne.symm h, h'])

theorem strLe_antisymm : ∀ a b : List PyChar, strLe a b = true → strLe b a = true → a = b
  | [], [], _, _ => rfl
  | _ :: _, [], h, _ => nomatch h
  | [], _ :: _, _, h => nomatch h
  | c :: a, d :: b, h₁, h₂ => by
    by_cases h : c = d
    · subst h
      simp only [strLe, if_pos rfl] at h₁ h₂
      rw [strLe_antisymm a b h₁ h₂]
    · simp only [strLe, if_neg h, if_neg (Ne.symm h), decide_eq_true_eq] at h₁ h₂
      exact absurd (h₁.trans h₂) (lt_irrefl _)

theorem strLe_trans : ∀ a b c : List PyChar, strLe a b = true → strLe b c = true → strLe a c = true
  | [], _, _, _, _ => rfl
  | _ :: _, [], _, h, _ => nomatch h
  | _ :: _, _ :: _, [], _, h => nomatch h
  | x :: a, y :: b, z :: c, h₁, h₂ => by
    simp only [strLe] at h₁ h₂ ⊢
    by_cases hxy : x = y
    · subst hxy
      by_cases hxz : x = z
      · subst hxz
        simp only [if_pos rfl] at h₁ h₂ ⊢
        exact strLe_trans a b c h₁ h₂
      · rwa [if_neg hxz] at h₂ ⊢
    · rw [if_neg hxy, decide_eq_true_eq] at h₁
      have hyz : y.toNat ≤ z.toNat := by
        split_ifs at h₂ with h
        · exact (congrArg PyChar.toNat h).le
        · exact (of_decide_eq_true h₂).le
      have hxz := lt_of_lt_of_le h₁ hyz
      rw [if_neg fun h => hxz.ne (congrArg PyChar.toNat h), decide_eq_true_eq]
      exact hxz

/-! ### `sorted(list(a - b))` -/

theorem sortedDiff_congr_right {a b b' : List (List PyChar)} (h : ∀ t, t ∈ b ↔ t ∈ b') :
    sortedDiff a b = sortedDiff a b' := by
  simp only [sortedDiff, h]

theorem sortedDiff_congr_left {a a' b : List (List PyChar)} (h : ∀ t, t ∈ a ↔ t ∈ a') :
    sortedDiff a b = sortedDiff a' b := by
  haveI : IsTotal (List PyChar) fun s t => strLe s t = true := ⟨strLe_total⟩
  haveI : IsTrans (List PyChar) fun s t => strLe s t = true := ⟨strLe_trans⟩
  haveI : IsAntisymm (List PyChar) fun s t => strLe s t = true := ⟨strLe_antisymm⟩
  have hp : ((a.filter fun t => decide (t ∉ b)).dedup).Perm (a'.filter fun t => decide (t ∉ b)).dedup :=
    (List.perm_ext_iff_of_nodup (List.nodup_dedup _) (List.nodup_dedup _)).mpr fun t => by
      simp only [List.mem_dedup, List.mem_filter, h]
  exact List.eq_of_perm_of_sorted
    ((List.perm_insertionSort _ _).trans (hp.trans (List.perm_insertionSort _ _).symm))
    (List.sorted_insertionSort _ _) (List.sorted_insertionSort _ _)

/-! ### The snapshot -/

section Lookup

variable {α β : Type} [DecidableEq α]

theorem lookup_cons_ite (k t : List α) (b : β) (es : List (List α × β)) :
    ((k, b) :: es).lookup t = if t = k then some b else es.lookup t := by
  by_cases h : t = k
  · subst h
    simp [List.lookup_cons]
  · simp only [List.lookup_cons, beq_eq_false_iff_ne.mpr h, if_neg h]

theorem lookup_map_snd {γ : Type} (f : β → γ) (l : List (List α × β)) (t : List α) :
    (l.map fun p => (p.1, f p.2)).lookup t = (l.lookup t).map f := by
  induction l with
  | nil => rfl
  | cons p l ih =>
    obtain ⟨k, b⟩ := p
    rw [List.map_cons, lookup_cons_ite, lookup_cons_ite, ih]
    by_cases h : t = k <;> simp [h]

theorem lookup_map_fst {γ : Type} [DecidableEq γ] {f : List α → List γ} (hf : Function.Injective f)
    (l : List (List α × β)) (t : List α) : (l.map fun p => (f p.1, p.2)).lookup (f t) = l.lookup t := by
  induction l with
  | nil => rfl
  | cons p l ih =>
    obtain ⟨k, b⟩ := p
    rw [List.map_cons, lookup_cons_ite, lookup_cons_ite, ih]
    exact if_congr hf.eq_iff rfl rfl

theorem mem_keys_iff_isSome (l : List (List α × β)) (t : List α) :
    t ∈ l.map Prod.fst ↔ (l.lookup t).isSome := by
  induction l with
  | nil => simp
  | cons p l ih =>
    obtain ⟨k, b⟩ := p
    rw [List.map_cons, List.mem_cons, ih, lookup_cons_ite]
    by_cases h : t = k
    · rw [if_pos h]
      exact iff_of_true (.inl h) rfl
    · rw [if_neg h]
      exact or_iff_right h

end Lookup

theorem lookup_map_set (d : List (List PyChar × JsonValue)) (k t : List PyChar) (v : JsonValue) :
    (d.map fun e => if e.1 = k then (k, v) else e).lookup t =
      if t = k then (d.lookup k).map fun _ => v else d.lookup t := by
  induction d with
  | nil => split <;> rfl
  | cons e d ih =>
    obtain ⟨k', w⟩ := e
    by_cases hk : k' = k
    · subst hk
      by_cases ht : t = k' <;> simp [ht, lookup_cons_ite, ih]
    · simp only [List.map_cons, if_neg hk, lookup_cons_ite, ih]
      by_cases ht : t = k
      · subst ht
        simp [Ne.symm hk]
      · simp [ht]

theorem lookup_dictSet (d : List (List PyChar × JsonValue)) (k t : List PyChar) (v : JsonValue) :
    (dictSet d k v).lookup t = if t = k then some v else d.lookup t := by
  unfold dictSet
  split_ifs with hk ht ht
  · rw [lookup_map_set, if_pos ht]
    cases hw : d.lookup k with
    | none =>
      obtain ⟨p, hp, rfl⟩ := List.mem_map.mp hk
      exact absurd (List.lookup_eq_none_iff.mp hw p hp) (by simp)
    | some w => rfl
  · rw [lookup_map_set, if_neg ht]
  · have hn : d.lookup k = none := List.lookup_eq_none_iff.mpr fun p hp =>
      bne_iff_ne.mpr fun h => hk (h ▸ List.mem_map_of_mem Prod.fst hp)
    rw [List.lookup_append, ht, hn, lookup_cons_ite, if_pos rfl]
    rfl
  · rw [List.lookup_append, lookup_cons_ite, if_neg ht]
    exact Option.or_none

theorem lookup_sectionsDict (infos : List SectionInfo) (t : List PyChar) :
    (sectionsDict infos).lookup t =
      ((infos.map fun s => (ofChars s.title, s)).reverse.lookup t).map SectionInfo.asdict := by
  induction infos using List.reverseRecOn with
  | nil => rfl
  | append_singleton infos s ih =>
    rw [sectionsDict, List.foldl_append, ← sectionsDict, List.foldl_cons, List.foldl_nil,
      lookup_dictSet, ih, List.map_append, List.reverse_append, List.map_cons, List.map_nil,
      List.reverse_singleton, List.singleton_append, lookup_cons_ite]
    split_ifs <;> rfl

theorem mem_keys_sectionsDict {infos : List SectionInfo} {t : List PyChar} :
    t ∈ (sectionsDict infos).map Prod.fst ↔ t ∈ infos.map (ofChars ·.title) := by
  rw [mem_keys_iff_isSome, lookup_sectionsDict, Option.isSome_map', ← mem_keys_iff_isSome,
    List.map_reverse, List.mem_reverse, List.map_map]
  rfl

section Hash

variable (hash : List Char → List Char)

/-- The drift of `text` against `old`, the specification the snapshot was taken of. -/
def driftAgainst (old text : List Char) : DriftResult :=
  ⟨(extractSections text).map fun sec => ⟨sec.1, hash sec.2,
      ((extractSections old).reverse.lookup sec.1).any fun b => hash b != hash sec.2⟩,
    sortedDiff ((extractSections text).map (ofChars ·.1)) ((extractSections old).map (ofChars ·.1)),
    sortedDiff ((extractSections old).map (ofChars ·.1)) ((extractSections text).map (ofChars ·.1))⟩

/-- Section infos with the titles and digests of the sections of `old`, in order. -/
def InfosOf (old : List Char) (infos : List SectionInfo) : Prop :=
  infos.map (fun s => (s.title, s.hash)) = (extractSections old).map fun sec => (sec.1, hash sec.2)

theorem infosOf_nil : InfosOf hash [] [] := rfl

theorem infosOf_driftAgainst (old text : List Char) :
    InfosOf hash text (driftAgainst hash old text).sections := by
  simp [InfosOf, driftAgainst, Function.comp_def]

variable {hash} {old : List Char} {infos : List SectionInfo}

theorem InfosOf.titles (h : InfosOf hash old infos) :
    infos.map (·.title) = (extractSections old).map Prod.fst := by
  simpa [Function.comp_def] using congrArg (List.map Prod.fst) h

theorem InfosOf.lookup_hash (h : InfosOf hash old infos) (t : List Char) :
    (((infos.map fun s => (ofChars s.title, s)).reverse.lookup (ofChars t)).map (·.hash)) =
      ((extractSections old).reverse.lookup t).map hash := by
  rw [← lookup_map_snd, ← lookup_map_snd, List.map_reverse, List.map_reverse, List.map_map,
    ← lookup_map_fst ofChars_injective (List.reverse _) t, List.map_reverse, List.map_map]
  have h' := congrArg (fun l => (l.map fun p => (ofChars p.1, p.2)).reverse.lookup (ofChars t)) h
  simpa only [List.map_map, Function.comp_def] using h'

theorem InfosOf.keys (h : InfosOf hash old infos) :
    infos.map (ofChars ·.title) = (extractSections old).map (ofChars ·.1) := by
  simpa [Function.comp_def] using congrArg (List.map ofChars) h.titles

/-- One section against the snapshot of a run on `old`. -/
theorem sectionInfo_snapshot (h : InfosOf hash old infos) (sec : List Char × List Char) :
    sectionInfo hash (.dict (sectionsDict infos)) sec =
      .ok ⟨sec.1, hash sec.2, ((extractSections old).reverse.lookup sec.1).any
        fun b => hash b != hash sec.2⟩ := by
  have hh := h.lookup_hash sec.1
  cases hs : (infos.map fun s => (ofChars s.title, s)).reverse.lookup (ofChars sec.1) with
  | none =>
    rw [hs, Option.map_none', eq_comm, Option.map_eq_none'] at hh
    have hl : (sectionsDict infos).lookup (ofChars sec.1) = none := by rw [lookup_sectionsDict, hs]; rfl
    rw [sectionInfo, storedHash_of_lookup_none hl, hh]
    rfl
  | some s =>
    rw [hs, Option.map_some', eq_comm, Option.map_eq_some'] at hh
    obtain ⟨b, hb, hbs⟩ := hh
    rw [sectionInfo_of_stored hash (by rw [lookup_sectionsDict, hs]; rfl), hb, ← hbs]
    rfl

/-- The detector against the snapshot of a run on `old` reports the drift of the text against
`old`. -/
theorem detectDrift_snapshot (h : InfosOf hash old infos) (text : List Char) :
    detectDrift hash text (.dict (sectionsDict infos)) = .ok (driftAgainst hash old text) := by
  have hmap : buildSectionInfos hash text (.dict (sectionsDict infos)) =
      .ok (driftAgainst hash old text).sections :=
    mapM_eq_ok_of_forall₂ (List.forall₂_map_right_iff.mpr
      (List.forall₂_same.mpr fun sec _ => sectionInfo_snapshot h sec))
  have hkeys : ∀ t, t ∈ (sectionsDict infos).map Prod.fst ↔ t ∈ (extractSections old).map (ofChars ·.1) :=
    fun t => by rw [mem_keys_sectionsDict, h.keys]
  rw [detectDrift_dict hash hmap, driftAgainst, List.map_map, sortedDiff_congr_right hkeys,
    sortedDiff_congr_left hkeys]
  rfl

end Hash

end SpecTrace.Drift
