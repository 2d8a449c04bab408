import Mathlib.Data.List.Nodup
import SpecTrace.Python.Text
import SpecTrace.Python.Str

/-! The annotation scanner of `spec_test_map.py`. Every scanned test file is read line
by line; a line matching `annot_re` (`^\s*///\s*@spec\s+(.+)$`) adds its stripped
payload to the pending annotations, and a line matching `fn_name_re` binds every pending
annotation to `<relative path>::<function>` in `spec_map` (`flush`) and clears them. The
pending list starts empty in every file.

Proved: no line matches both patterns; one line is one step of a two-state machine whose
pending list is exactly the annotations after the last function line; a run over a file
adds exactly the bindings of the declarative relation `Binds`; over any sequence of files,
in any order and with repetitions, `spec_map` holds exactly the bindings of the files,
every bucket nonempty and without duplicates. -/

namespace SpecTrace.Mapping

open Python

/-! ### `annot_re` and `fn_name_re` -/

/-- `\s+(.+)$` matched at the start of `r`, and its group: the greedy `\s+` gives characters back only
when nothing follows it. -/
def specGroup (r : List Char) : Option (List Char) :=
  let ws := r.takeWhile isSpace
  let t := r.drop ws.length
  if ws = [] then none
  else if t = [] then
    match ws.reverse with
    | c :: c' :: rest => if c ≠ '\n' then some [c] else if c' ≠ '\n' ∧ rest ≠ [] then some [c'] else none
    | _ => none
  else if t.drop (t.takeWhile (· != '\n')).length = [] ∨
      t.drop (t.takeWhile (· != '\n')).length = ['\n'] then some (t.takeWhile (· != '\n'))
  else none

/-- `annot_re.match(line).group(1)` for `^\s*///\s*@spec\s+(.+)$`. -/
def annotGroup (line : List Char) : Option (List Char) :=
  let r := lstrip line
  if ['/', '/', '/'].isPrefixOf r then
    let r := lstrip (r.drop 3)
    if "@spec".toList.isPrefixOf r then specGroup (r.drop 5) else none
  else none

/-- `a.group(1).strip()` of an annotation line. -/
def annotPayload (line : List Char) : Option (List Char) := (annotGroup line).map strip

example : annotPayload "  /// @spec 1. Overview \n".toList = some "1. Overview".toList := by decide

/-- The word `w` and the whitespace after it, at the start of `r`; the text after both. -/
def afterWord (w r : List Char) : Option (List Char) :=
  if w.isPrefixOf r ∧ (r.drop w.length).head?.any isSpace then some (lstrip (r.drop w.length))
  else none

/-- The class `[a-zA-Z0-9_]`. -/
def isIdentChar (c : Char) : Bool := c.isAlphanum || c == '_'

/-- `fn_name_re.match(line).group(1)` for `^\s*(?:pub\s+)?(?:async\s+)?fn\s+([a-zA-Z0-9_]+)\s*\(`;
an optional word that matches is never given back. -/
def fnName (line : List Char) : Option (List Char) :=
  let r := lstrip line
  let r := (afterWord "pub".toList r).getD r
  let r := (afterWord "async".toList r).getD r
  match afterWord "fn".toList r with
  | some r =>
    let name := r.takeWhile isIdentChar
    if name ≠ [] ∧ (lstrip (r.drop name.length)).head? = some '(' then some name else none
  | none => none

example : fnName "pub async fn check_overview() \x7b\n".toList = some "check_overview".toList := by
  decide

theorem head?_of_afterWord {w r r' : List Char} (hw : w ≠ []) (h : afterWord w r = some r') :
    r.head? = w.head? := by
  unfold afterWord at h
  split at h
  · next hp =>
    obtain ⟨t, rfl⟩ := List.isPrefixOf_iff_prefix.mp hp.1
    cases w with
    | nil => contradiction
    | cons c w => rfl
  · contradiction

theorem head?_of_fnName {line name : List Char} (h : fnName line = some name) :
    (lstrip line).head? = some 'p' ∨ (lstrip line).head? = some 'a' ∨
      (lstrip line).head? = some 'f' := by
  dsimp only [fnName] at h
  generalize hr : lstrip line = r at h
  cases hp : afterWord "pub".toList r with
  | some r₁ => exact .inl (head?_of_afterWord (by decide) hp)
  | none =>
    rw [hp, Option.getD_none] at h
    cases ha : afterWord "async".toList r with
    | some r₂ => exact .inr (.inl (head?_of_afterWord (by decide) ha))
    | none =>
      rw [ha, Option.getD_none] at h
      cases hf : afterWord "fn".toList r with
      | some r₃ => exact .inr (.inr (head?_of_afterWord (by decide) hf))
      | none => rw [hf] at h; contradiction

theorem head?_of_annotGroup {line g : List Char} (h : annotGroup line = some g) :
    (lstrip line).head? = some '/' := by
  dsimp only [annotGroup] at h
  split at h
  · next hp =>
    obtain ⟨t, ht⟩ := List.isPrefixOf_iff_prefix.mp hp
    rw [← ht]; rfl
  · contradiction

theorem fnName_eq_none_of_annot {line g : List Char} (h : annotGroup line = some g) :
    fnName line = none := by
  cases hf : fnName line with
  | none => rfl
  | some name =>
    have ha := head?_of_annotGroup h
    rcases head?_of_fnName hf with h' | h' | h' <;> rw [ha] at h' <;> simp at h'

theorem fnName_eq_none_of_annotPayload {line sec : List Char} (h : annotPayload line = some sec) :
    fnName line = none := by
  obtain ⟨g, hg, -⟩ := Option.map_eq_some'.mp h
  exact fnName_eq_none_of_annot hg

/-- A captured function name is a nonempty run of `[a-zA-Z0-9_]`. -/
theorem fnName_spec {line name : List Char} (h : fnName line = some name) :
    name ≠ [] ∧ ∀ c ∈ name, isIdentChar c = true := by
  dsimp only [fnName] at h
  split at h
  · next r _ =>
    split at h
    · next hn =>
      obtain rfl := Option.some.inj h
      exact ⟨hn.1, fun c hc => List.mem_takeWhile_imp hc⟩
    · contradiction
  · contradiction

/-! ### `spec_map` and `flush` -/

/-- `spec_map`: section title and test identifiers, in insertion order. -/
abbrev SpecMap := List (List Char × List (List PyChar))

/-- `f"{current_path.relative_to(ROOT).as_posix()}::{current_fn}"`. -/
def testIdent (path : List PyChar) (fn : List Char) : List PyChar := path ++ ofChars ("::".toList ++ fn)

/-- `bucket = spec_map.setdefault(sec, []); if ident not in bucket: bucket.append(ident)`. -/
def bindIdent (m : SpecMap) (sec : List Char) (ident : List PyChar) : SpecMap :=
  if m.any (·.1 == sec) then
    m.map fun e => (e.1, if e.1 = sec ∧ ident ∉ e.2 then e.2 ++ [ident] else e.2)
  else m ++ [(sec, [ident])]

/-- `flush()` once `current_fn` is set to `fn`; `current_path`, a `Path`, is always true. -/
def flush (m : SpecMap) (path : List PyChar) (fn : List Char) (annots : List (List Char)) : SpecMap :=
  if fn ≠ [] ∧ annots ≠ [] then annots.foldl (fun m sec => bindIdent m sec (testIdent path fn)) m
  else m

/-- `sec` is bound to `ident` in `m`. -/
def Bound (m : SpecMap) (sec : List Char) (ident : List PyChar) : Prop := ∃ b, (sec, b) ∈ m ∧ ident ∈ b

/-- The shape of `spec_map`: distinct sections, and nonempty buckets without duplicates. -/
structure WF (m : SpecMap) : Prop where
  keys_nodup : (m.map Prod.fst).Nodup
  buckets : ∀ e ∈ m, e.2 ≠ [] ∧ e.2.Nodup

theorem bound_bindIdent {m : SpecMap} {sec s : List Char} {ident i : List PyChar} :
    Bound (bindIdent m sec ident) s i ↔ Bound m s i ∨ (s = sec ∧ i = ident) := by
  unfold bindIdent Bound
  split
  · next hk =>
    obtain ⟨⟨k, b₀⟩, hk₀, hk⟩ := List.any_eq_true.mp hk
    simp only [beq_iff_eq] at hk
    subst hk
    simp only [List.mem_map, Prod.mk.injEq]
    constructor
    · rintro ⟨b', ⟨⟨s', b⟩, he, rfl, rfl⟩, hi⟩
      split at hi
      · next hc =>
        rcases List.mem_append.mp hi with hi | hi
        · exact .inl ⟨b, he, hi⟩
        · exact .inr ⟨hc.1, by simpa using hi⟩
      · exact .inl ⟨b, he, hi⟩
    · rintro (⟨b, he, hi⟩ | ⟨rfl, rfl⟩)
      · exact ⟨_, ⟨(s, b), he, rfl, rfl⟩, by split <;> simp [hi]⟩
      · refine ⟨_, ⟨(s, b₀), hk₀, rfl, rfl⟩, ?_⟩
        split
        · simp
        · next hc => simpa using hc
  · simp only [List.mem_append, List.mem_singleton, Prod.mk.injEq]
    constructor
    · rintro ⟨b, (he | ⟨rfl, rfl⟩), hi⟩
      · exact .inl ⟨b, he, hi⟩
      · exact .inr ⟨rfl, by simpa using hi⟩
    · rintro (⟨b, he, hi⟩ | ⟨rfl, rfl⟩)
      · exact ⟨b, .inl he, hi⟩
      · exact ⟨[i], .inr ⟨rfl, rfl⟩, by simp⟩

@[simp] theorem not_bound_nil (sec : List Char) (ident : List PyChar) : ¬Bound [] sec ident := by
  rintro ⟨b, hb, -⟩
  cases hb

theorem WF.bindIdent {m : SpecMap} (h : WF m) (sec : List Char) (ident : List PyChar) :
    WF (bindIdent m sec ident) := by
  unfold SpecTrace.Mapping.bindIdent
  split
  · refine ⟨by simpa [Function.comp_def] using h.keys_nodup, ?_⟩
    simp only [List.mem_map]
    rintro _ ⟨e, he, rfl⟩
    obtain ⟨hne, hnd⟩ := h.buckets e he
    split
    · next hc => exact ⟨by simp, List.nodup_append.mpr ⟨hnd, by simp, by simpa using hc.2⟩⟩
    · exact ⟨hne, hnd⟩
  · next hk =>
    refine ⟨?_, ?_⟩
    · rw [List.map_append, List.nodup_append]
      refine ⟨h.keys_nodup, by simp, ?_⟩
      simp only [List.map_cons, List.map_nil, List.disjoint_singleton]
      intro hm
      obtain ⟨e, he, rfl⟩ := List.mem_map.mp hm
      exact hk (List.any_eq_true.mpr ⟨e, he, by simp⟩)
    · intro e he
      rcases List.mem_append.mp he with he | he
      · exact h.buckets e he
      · simp at he; subst he; simp

theorem bound_flush {m : SpecMap} {path : List PyChar} {fn : List Char} (hfn : fn ≠ [])
    (annots : List (List Char)) {s : List Char} {i : List PyChar} :
    Bound (flush m path fn annots) s i ↔ Bound m s i ∨ (s ∈ annots ∧ i = testIdent path fn) := by
  unfold flush
  split
  · clear ‹_›
    induction annots generalizing m with
    | nil => simp
    | cons a annots ih =>
      rw [List.foldl_cons, ih, bound_bindIdent, List.mem_cons, or_and_right, or_assoc]
  · next h =>
    have : annots = [] := by simpa [hfn] using h
    simp [this]

theorem WF.flush {m : SpecMap} (h : WF m) (path : List PyChar) (fn : List Char)
    (annots : List (List Char)) :
    WF (flush m path fn annots) := by
  unfold SpecTrace.Mapping.flush
  split
  · clear ‹_›
    induction annots generalizing m with
    | nil => exact h
    | cons a annots ih => exact ih (h.bindIdent _ _)
  · exact h

/-! ### One file -/

/-- The state of the scan of one file: `spec_map` and `current_annots`. -/
structure ScanState where
  specMap : SpecMap
  annots : List (List Char)

/-- One line of the file at `path`: an annotation joins the pending ones; a function line
binds them (`flush`) and clears them. -/
def scanLine (path : List PyChar) (st : ScanState) (line : List Char) : ScanState :=
  let annots := match annotPayload line with
    | some sec => st.annots ++ [sec]
    | none => st.annots
  match fnName line with
  | some fn => ⟨flush st.specMap path fn annots, []⟩
  | none => ⟨st.specMap, annots⟩

/-- A test file: its path from the root as `Path.glob` names it, each byte that is not UTF-8 a
lone surrogate U+DC80 to U+DCFF (`surrogateescape`), and its decoded text. -/
structure TestFile where
  path : List PyChar
  contents : List Char
  path_escaped : ∀ c ∈ path, c.IsEscapedByte

/-- The scan of one file: `current_annots` starts empty, and the annotations still pending
at its end are dropped. -/
def scanFile (m : SpecMap) (file : TestFile) : SpecMap :=
  ((fileLines file.contents).foldl (scanLine file.path) ⟨m, []⟩).specMap

/-- `spec_map` after the loop over the files the globs yield, in that order. -/
def scanFiles (files : List TestFile) : SpecMap := files.foldl scanFile []

/-- Some line of `lines` is an annotation with payload `sec` and no later line is a
function line. -/
def Pending (lines : List (List Char)) (sec : List Char) : Prop :=
  ∃ A la B, lines = A ++ la :: B ∧ annotPayload la = some sec ∧ ∀ l ∈ B, fnName l = none

/-- An annotation with payload `sec` is pending when a line declaring `f` comes. -/
def Binds (lines : List (List Char)) (sec f : List Char) : Prop :=
  ∃ P lf C, lines = P ++ lf :: C ∧ Pending P sec ∧ fnName lf = some f

private theorem snoc_eq_append_cons {α : Type} {xs ys zs : List α} {x y : α}
    (h : xs ++ [x] = ys ++ y :: zs) :
    (zs = [] ∧ xs = ys ∧ x = y) ∨ ∃ zs', zs = zs' ++ [x] ∧ xs = ys ++ y :: zs' := by
  rcases List.eq_nil_or_concat zs with rfl | ⟨zs', z, hz⟩
  · obtain ⟨h₁, h₂⟩ := List.append_inj' h rfl
    exact .inl ⟨rfl, h₁, by simpa using h₂⟩
  · rw [hz, List.concat_eq_append, ← List.cons_append, ← List.append_assoc] at h
    rw [hz, List.concat_eq_append]
    obtain ⟨h₁, h₂⟩ := List.append_inj' h rfl
    obtain rfl : x = z := by simpa using h₂
    exact .inr ⟨zs', rfl, h₁⟩

@[simp] theorem not_pending_nil (sec : List Char) : ¬Pending [] sec := by
  rintro ⟨A, la, B, h, -⟩
  simp at h

@[simp] theorem not_binds_nil (sec f : List Char) : ¬Binds [] sec f := by
  rintro ⟨P, lf, C, h, -⟩
  simp at h

theorem pending_snoc {lines : List (List Char)} {l sec : List Char} :
    Pending (lines ++ [l]) sec ↔ fnName l = none ∧ (Pending lines sec ∨ annotPayload l = some sec) := by
  constructor
  · rintro ⟨A, la, B, h, ha, hB⟩
    rcases snoc_eq_append_cons h with ⟨rfl, -, rfl⟩ | ⟨B', rfl, rfl⟩
    · exact ⟨fnName_eq_none_of_annotPayload ha, .inr ha⟩
    · exact ⟨hB l (by simp), .inl ⟨A, la, B', rfl, ha, fun l' hl' => hB l' (by simp [hl'])⟩⟩
  · rintro ⟨hl, ⟨A, la, B, rfl, ha, hB⟩ | ha⟩
    · refine ⟨A, la, B ++ [l], by simp, ha, fun l' hl' => ?_⟩
      rcases List.mem_append.mp hl' with hl' | hl'
      · exact hB l' hl'
      · rwa [List.mem_singleton.mp hl']
    · exact ⟨lines, l, [], rfl, ha, by simp⟩

theorem binds_snoc {lines : List (List Char)} {l sec f : List Char} :
    Binds (lines ++ [l]) sec f ↔ Binds lines sec f ∨ (fnName l = some f ∧ Pending lines sec) := by
  constructor
  · rintro ⟨P, lf, C, h, hP, hf⟩
    rcases snoc_eq_append_cons h with ⟨rfl, rfl, rfl⟩ | ⟨C', rfl, rfl⟩
    · exact .inr ⟨hf, hP⟩
    · exact .inl ⟨P, lf, C', rfl, hP, hf⟩
  · rintro (⟨P, lf, C, rfl, hP, hf⟩ | ⟨hf, hP⟩)
    · exact ⟨P, lf, C ++ [l], by simp, hP, hf⟩
    · exact ⟨lines, l, [], rfl, hP, hf⟩

/-- What the scan of the first `lines` of the file at `path` has done from `spec_map = m`: pending
annotations after the last function line, and the bindings the lines make. -/
structure ScanInv (path : List PyChar) (m : SpecMap) (lines : List (List Char)) (st : ScanState) :
    Prop where
  annots : ∀ sec, sec ∈ st.annots ↔ Pending lines sec
  bound : ∀ sec ident, Bound st.specMap sec ident ↔
    Bound m sec ident ∨ ∃ f, ident = testIdent path f ∧ Binds lines sec f

theorem scanInv_nil (path : List PyChar) (m : SpecMap) : ScanInv path m [] ⟨m, []⟩ :=
  ⟨by simp, by simp⟩

theorem ScanInv.scanLine {path : List PyChar} {m : SpecMap} {lines : List (List Char)}
    {st : ScanState} (h : ScanInv path m lines st) (l : List Char) :
    ScanInv path m (lines ++ [l]) (scanLine path st l) := by
  unfold SpecTrace.Mapping.scanLine
  cases hf : fnName l with
  | none =>
    refine ⟨fun sec => ?_, fun sec ident => ?_⟩
    · rw [pending_snoc, ← h.annots]
      cases annotPayload l <;> simp [hf, eq_comm]
    · simp only [h.bound, binds_snoc, hf, reduceCtorEq, false_and, or_false]
  | some fn =>
    have hp : annotPayload l = none := by
      cases hp : annotPayload l with
      | none => rfl
      | some sec => rw [fnName_eq_none_of_annotPayload hp] at hf; contradiction
    refine ⟨fun sec => by simp [pending_snoc, hf], fun sec ident => ?_⟩
    simp only [hp, bound_flush (fnName_spec hf).1, h.bound, h.annots, binds_snoc, hf,
      Option.some.injEq]
    constructor
    · rintro ((hb | ⟨f, rfl, hb⟩) | ⟨hP, rfl⟩)
      · exact .inl hb
      · exact .inr ⟨f, rfl, .inl hb⟩
      · exact .inr ⟨fn, rfl, .inr ⟨rfl, hP⟩⟩
    · rintro (hb | ⟨f, rfl, hb | ⟨rfl, hP⟩⟩)
      · exact .inl (.inl hb)
      · exact .inl (.inr ⟨f, rfl, hb⟩)
      · exact .inr ⟨hP, rfl⟩

theorem scanInv_foldl (path : List PyChar) (m : SpecMap) (lines : List (List Char)) :
    ScanInv path m lines (lines.foldl (scanLine path) ⟨m, []⟩) := by
  induction lines using List.reverseRecOn with
  | nil => exact scanInv_nil path m
  | append_singleton lines l ih => rw [List.foldl_append, List.foldl_cons, List.foldl_nil]; exact ih.scanLine l

theorem WF.foldl_scanLine (path : List PyChar) (lines : List (List Char)) {st : ScanState}
    (h : WF st.specMap) : WF (lines.foldl (scanLine path) st).specMap := by
  induction lines generalizing st with
  | nil => exact h
  | cons l lines ih =>
    refine ih ?_
    unfold scanLine
    cases fnName l with
    | none => exact h
    | some fn => exact h.flush _ _ _

theorem bound_scanFile {m : SpecMap} {file : TestFile} {sec : List Char} {ident : List PyChar} :
    Bound (scanFile m file) sec ident ↔
      Bound m sec ident ∨ ∃ f, ident = testIdent file.path f ∧ Binds (fileLines file.contents) sec f :=
  (scanInv_foldl _ _ _).bound sec ident

/-! ### All files -/

/-- The bindings a sequence of files makes: `rel(p)::f` to `sec` when the lines of file `p`
bind `sec` to `f`. -/
def FilesBind (files : List TestFile) (sec : List Char) (ident : List PyChar) : Prop :=
  ∃ file ∈ files, ∃ f, ident = testIdent file.path f ∧ Binds (fileLines file.contents) sec f

theorem bound_foldl_scanFile (files : List TestFile) (m : SpecMap) {sec : List Char}
    {ident : List PyChar} :
    Bound (files.foldl scanFile m) sec ident ↔ Bound m sec ident ∨ FilesBind files sec ident := by
  induction files generalizing m with
  | nil => simp [FilesBind]
  | cons file files ih =>
    rw [List.foldl_cons, ih, bound_scanFile]
    rw [FilesBind, FilesBind, List.exists_mem_cons_iff, or_assoc]

theorem bound_scanFiles (files : List TestFile) {sec : List Char} {ident : List PyChar} :
    Bound (scanFiles files) sec ident ↔ FilesBind files sec ident := by
  simp only [scanFiles, bound_foldl_scanFile, not_bound_nil, false_or]

theorem wf_scanFiles (files : List TestFile) : WF (scanFiles files) := by
  unfold scanFiles
  suffices ∀ m, WF m → WF (files.foldl scanFile m) from this [] ⟨List.nodup_nil, by simp⟩
  induction files with
  | nil => exact fun _ h => h
  | cons file files ih => exact fun m h => ih _ (h.foldl_scanLine _ _)

/-! ### `spec_map` is determined by its bindings -/

theorem WF.mem_bucket_iff {m : SpecMap} (h : WF m) {sec : List Char} {b : List (List PyChar)}
    (he : (sec, b) ∈ m) {ident : List PyChar} : ident ∈ b ↔ Bound m sec ident := by
  refine ⟨fun hi => ⟨b, he, hi⟩, fun ⟨b', he', hi⟩ => ?_⟩
  have hb := List.inj_on_of_nodup_map h.keys_nodup he he' rfl
  simp only [Prod.mk.injEq, true_and] at hb
  exact hb ▸ hi

theorem WF.mem_keys_iff {m : SpecMap} (h : WF m) {sec : List Char} :
    sec ∈ m.map Prod.fst ↔ ∃ ident, Bound m sec ident := by
  constructor
  · intro hs
    obtain ⟨⟨_, b⟩, he, rfl⟩ := List.mem_map.mp hs
    obtain ⟨ident, hi⟩ := List.exists_mem_of_ne_nil _ (h.buckets _ he).1
    exact ⟨ident, b, he, hi⟩
  · rintro ⟨ident, b, he, -⟩
    exact List.mem_map_of_mem Prod.fst he

theorem WF.perm_of_bound_iff {m₁ m₂ : SpecMap} (h₁ : WF m₁) (h₂ : WF m₂)
    (h : ∀ sec ident, Bound m₁ sec ident ↔ Bound m₂ sec ident) :
    (m₁.map Prod.fst).Perm (m₂.map Prod.fst) ∧
      ∀ sec b₁ b₂, (sec, b₁) ∈ m₁ → (sec, b₂) ∈ m₂ → b₁.Perm b₂ := by
  refine ⟨(List.perm_ext_iff_of_nodup h₁.keys_nodup h₂.keys_nodup).mpr fun sec => ?_, ?_⟩
  · simp only [h₁.mem_keys_iff, h₂.mem_keys_iff, h]
  · intro sec b₁ b₂ he₁ he₂
    refine (List.perm_ext_iff_of_nodup (h₁.buckets _ he₁).2 (h₂.buckets _ he₂).2).mpr fun i => ?_
    rw [h₁.mem_bucket_iff he₁, h₂.mem_bucket_iff he₂, h]

/-! ### The scanner over any files -/

/-- The annotation scanner: `spec_map` is well formed, binds exactly what the files bind, and does not
depend on the order or repetition of the files. -/
theorem scanFiles_spec (files : List TestFile) :
    WF (scanFiles files) ∧
    (∀ sec ident, Bound (scanFiles files) sec ident ↔ FilesBind files sec ident) ∧
    ∀ files' : List TestFile, (∀ file, file ∈ files' ↔ file ∈ files) →
      ((scanFiles files').map Prod.fst).Perm ((scanFiles files).map Prod.fst) ∧
      ∀ sec b' b, (sec, b') ∈ scanFiles files' → (sec, b) ∈ scanFiles files → b'.Perm b := by
  refine ⟨wf_scanFiles files, fun _ _ => bound_scanFiles files, fun files' h => ?_⟩
  refine (wf_scanFiles files').perm_of_bound_iff (wf_scanFiles files) fun sec ident => ?_
  simp only [bound_scanFiles, FilesBind, h]

example : scanFiles [⟨pyStr "a.rs", "/// @spec 1. A\n#[test]\nfn f() \x7b\x7d\n/// @spec 2. B\n".toList,
      by decide⟩, ⟨pyStr "b.rs", "fn g() \x7b\x7d\n".toList, by decide⟩] =
    [("1. A".toList, [pyStr "a.rs::f"])] := by
  decide

end SpecTrace.Mapping
