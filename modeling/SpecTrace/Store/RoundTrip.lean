import SpecTrace.Store.Scanners

/-! `json.loads(json.dumps(v, indent=2)) == v`: the text `json.dumps` prints is read back as the
value it was printed from, when no dict of the value repeats a key, every node of it reads back
(`Rereads`: `int`s within the digit limit, strings without a high surrogate before a low one,
floats that `float.__repr__` prints as literals of their values) and the `json.loads` call has a
level left for each level of the value. When `float.__repr__` prints `x` as a literal of another
value `g x`, the text reads back as `v` with each float so replaced (`mapFloats`). The proof
follows the printer: one case per kind of value, and the items and members of a container one by
one, each read by the scanner lemmas of `Store.Scanners` with the fuel bounded by the length of
the text. -/

namespace SpecTrace.Store

open Python Drift

variable {repr : ℚ → List Char} {g : ℚ → ℚ}

/-! ### The first character of a printed value -/

/-- Text that starts with a value: neither whitespace, nor a closing bracket, nor a byte order
mark. -/
def StartsValue (s : List Char) : Prop :=
  ∃ c r, s = c :: r ∧ isWs c = false ∧ c ≠ ']' ∧ c ≠ '\x7d' ∧ c ≠ '﻿'

theorem StartsValue.append {s : List Char} (h : StartsValue s) (u : List Char) :
    StartsValue (s ++ u) := by
  obtain ⟨c, r, rfl, hc⟩ := h
  exact ⟨c, r ++ u, rfl, hc⟩

theorem StartsValue.skipWs {s : List Char} (h : StartsValue s) : skipWs s = s := by
  obtain ⟨c, r, rfl, hc, -⟩ := h
  exact skipWs_cons_of_not hc r

theorem StartsValue.head_ne {s : List Char} (h : StartsValue s) : s.head? ≠ some '\uFEFF' := by
  obtain ⟨c, r, rfl, -, -, -, hc⟩ := h
  exact fun h => hc (Option.some.inj h)

theorem startsValue_of_number {s : List Char} {p : JsonValue × List Char}
    (h : scanNumber s = some p) : StartsValue s := by
  obtain ⟨c, r, rfl, hc⟩ := scanNumber_head h
  refine ⟨c, r, rfl, ?_⟩
  rcases hc with hc | ⟨rfl, -⟩
  · simp only [isDigit, Bool.and_eq_true, decide_eq_true_eq] at hc
    have hlo : 48 ≤ c.toNat := hc.1
    have hhi : c.toNat ≤ 57 := hc.2
    simp only [isWs, Bool.or_eq_false_iff, beq_eq_false_iff_ne, ne_eq]
    refine ⟨⟨⟨⟨?_, ?_⟩, ?_⟩, ?_⟩, ?_, ?_, ?_⟩ <;> rintro rfl <;> revert hlo hhi <;> decide
  · decide

theorem startsValue_dumpsAt {v : JsonValue} (hp : Rereads repr g v) (L : Nat) :
    StartsValue (dumpsAt repr L v) := by
  match v, hp with
  | .null, _ | .bool true, _ | .bool false, _ | .str _, _ | .list [], _ | .list (_ :: _), _
  | .dict [], _ | .dict (_ :: _), _ | .float .nan, _ | .float (.inf false), _
  | .float (.inf true), _ => exact ⟨_, _, rfl, by decide⟩
  | .int _, hp => simpa using startsValue_of_number (scanNumber_toString hp numberEnd_nil)
  | .float (.finite x), hp => simpa using startsValue_of_number (hp [] numberEnd_nil)

/-! ### Containers -/

theorem numberEnd_dumpsItems (repr : ℚ → List Char) (L L' : Nat) (xs : List JsonValue) (u : List Char) :
    NumberEnd (dumpsItems repr L xs ++ (newlineIndent L' ++ u)) := by
  cases xs <;> exact numberEnd_cons (by decide) _

theorem numberEnd_dumpsEntries (repr : ℚ → List Char) (L L' : Nat) (es : List (List PyChar × JsonValue))
    (u : List Char) :
    NumberEnd (dumpsEntries repr L es ++ (newlineIndent L' ++ u)) := by
  cases es <;> exact numberEnd_cons (by decide) _

theorem scanOnce_list_open {f d : Nat} {w s r : List Char} {v : JsonValue}
    (hw : ∀ c ∈ w, isWs c = true) (hs : StartsValue s) (hv : scanOnce f d s = some (v, r)) :
    scanOnce (f + 1) (d + 1) ('[' :: (w ++ s)) = arrayRest f d r [v] := by
  obtain ⟨c, s', rfl, hws, hc, -⟩ := hs
  rw [scanOnce, skipWs_append_of_ws hw, skipWs_cons_of_not hws]
  split
  · next heq => exact absurd (List.cons.inj heq).1 hc
  · rw [hv]

theorem scanOnce_dict_open {f d : Nat} {w s : List Char} (hw : ∀ c ∈ w, isWs c = true)
    (hs : StartsValue s) : scanOnce (f + 1) (d + 1) ('\x7b' :: (w ++ s)) = objectMember f d s [] := by
  obtain ⟨c, s', rfl, hws, -, hc, -⟩ := hs
  rw [scanOnce, skipWs_append_of_ws hw, skipWs_cons_of_not hws]
  split
  · next heq => exact absurd (List.cons.inj heq).1 hc
  · rfl

theorem objectMember_encode {f d : Nat} {k : List PyChar} {s r : List Char} {v : JsonValue}
    (hk : PairFree k) (hv : scanOnce f d (skipWs s) = some (v, r)) (acc : List (List PyChar × JsonValue)) :
    objectMember (f + 1) d (encodeBasestringAscii k ++ ':' :: s) acc = objectRest f d r (dictSet acc k v) := by
  rw [encodeBasestringAscii_append, objectMember, scanString_encode hk (fun h => by cases h), withPending,
    List.reverse_nil, List.nil_append]
  dsimp only
  rw [colon, skipWs_cons_of_not (show isWs ':' = false from rfl)]
  simp only [hv]

theorem startsValue_encodeBasestringAscii (k : List PyChar) (u : List Char) :
    StartsValue (encodeBasestringAscii k ++ u) :=
  ⟨'"', _, encodeBasestringAscii_append k u, by decide⟩

theorem length_encodeBasestringAscii (s : List PyChar) :
    (encodeBasestringAscii s).length = (s.flatMap encodePyChar).length + 2 := by
  simp [encodeBasestringAscii]

/-! ### The round trip -/

mutual

/-- A printed value is read back, its floats as they print, with the text after it, by a scan
with a level left for each of its levels. -/
theorem scanOnce_dumpsAt : ∀ (v : JsonValue) (L f d : Nat) (t : List Char),
    v.Every JsonValue.DistinctKeys → v.Every (Rereads repr g) → v.nesting ≤ d →
    (dumpsAt repr L v).length < f → NumberEnd t →
    scanOnce f d (dumpsAt repr L v ++ t) = some (v.mapFloats g, t)
  | _, _, 0, _, _, _, _, _, hf, _ => absurd hf (Nat.not_lt_zero _)
  | .list _, _, _ + 1, 0, _, _, _, hd, _, _ => absurd hd (by simp [JsonValue.nesting])
  | .dict _, _, _ + 1, 0, _, _, _, hd, _, _ => absurd hd (by simp [JsonValue.nesting])
  | .null, _, _ + 1, _, _, _, _, _, _, _ => by
    simp [dumpsAt, floatStr, scanOnce, scanName, names, JsonValue.mapFloats]
  | .bool true, _, _ + 1, _, _, _, _, _, _, _ => by
    simp [dumpsAt, floatStr, scanOnce, scanName, names, JsonValue.mapFloats]
  | .bool false, _, _ + 1, _, _, _, _, _, _, _ => by
    simp [dumpsAt, floatStr, scanOnce, scanName, names, JsonValue.mapFloats]
  | .int _, _, f + 1, d, _, _, hp, _, _, ht => scanOnce_of_scanNumber (scanNumber_toString hp ht) f d
  | .float .nan, _, _ + 1, _, _, _, _, _, _, _ => by
    simp [dumpsAt, floatStr, scanOnce, scanName, names, JsonValue.mapFloats]
  | .float (.inf false), _, _ + 1, _, _, _, _, _, _, _ => by
    simp [dumpsAt, floatStr, scanOnce, scanName, names, JsonValue.mapFloats]
  | .float (.inf true), _, _ + 1, _, _, _, _, _, _, _ => by
    simp [dumpsAt, floatStr, scanOnce, scanName, names, JsonValue.mapFloats]
  | .float (.finite _), _, f + 1, d, t, _, hp, _, _, ht => scanOnce_of_scanNumber (hp t ht) f d
  | .str _, _, f + 1, d, t, _, hp, _, _, _ => scanOnce_encodeBasestringAscii f d hp t
  | .list [], _, _ + 1, _ + 1, _, _, _, _, _, _ => rfl
  | .list (x :: xs), L, f + 1, d + 1, t, ⟨_, hkx, hkxs⟩, ⟨_, hpx, hpxs⟩, hd, hf, _ => by
    rw [JsonValue.nesting_list_le_iff, List.forall_mem_cons] at hd
    simp only [dumpsAt, List.length_cons, List.length_append, length_newlineIndent] at hf
    simp only [dumpsAt, List.cons_append, List.append_assoc, List.singleton_append, List.nil_append]
    have hx := scanOnce_dumpsAt x (L + 1) f d _ hkx hpx hd.1 (by omega)
      (numberEnd_dumpsItems repr (L + 1) L xs (']' :: t))
    rw [scanOnce_list_open (isWs_newlineIndent _) ((startsValue_dumpsAt hpx.self _).append _) hx,
      arrayRest_dumpsItems xs (L + 1) f d hkxs hpxs hd.2 (by omega)]
    rfl
  | .dict [], _, _ + 1, _ + 1, _, _, _, _, _, _ => rfl
  | .dict ((k, v) :: es), L, f + 1, d + 1, t, ⟨hk, hkv, hkes⟩, ⟨hpk, hpv, hpes⟩, hd, hf, _ => by
    rw [JsonValue.nesting_dict_le_iff, List.forall_mem_cons] at hd
    replace hpk : PairFree k ∧ ∀ e ∈ es, PairFree e.1 := List.forall_mem_cons.mp hpk
    simp only [dumpsAt, List.length_cons, List.length_append, length_newlineIndent,
      length_encodeBasestringAscii] at hf
    simp only [dumpsAt, List.cons_append, List.append_assoc, List.singleton_append, List.nil_append]
    obtain ⟨f, rfl⟩ : ∃ f', f = f' + 1 := ⟨f - 1, by omega⟩
    have hv := scanOnce_dumpsAt v (L + 1) f d _ hkv hpv hd.1 (by omega)
      (numberEnd_dumpsEntries repr (L + 1) L es ('\x7d' :: t))
    rw [scanOnce_dict_open (isWs_newlineIndent _) (startsValue_encodeBasestringAscii k _),
      objectMember_encode hpk.1 (by rwa [skipWs_cons_of_ws (show isWs ' ' = true from rfl),
        ((startsValue_dumpsAt hpv.self _).append _).skipWs]),
      dictSet_of_not_mem (List.not_mem_nil k),
      objectRest_dumpsEntries es (L + 1) f d hkes hpes hpk.2 hd.2
        (show ((([] ++ [(k, v)]) ++ es).map Prod.fst).Nodup from hk) (by omega)]
    rfl

theorem arrayRest_dumpsItems : ∀ (xs : List JsonValue) (L f d : Nat) {L' : Nat} {t : List Char}
    {acc : List JsonValue}, JsonValue.EveryItem JsonValue.DistinctKeys xs →
    JsonValue.EveryItem (Rereads repr g) xs → (∀ x ∈ xs, x.nesting ≤ d) →
    (dumpsItems repr L xs).length < f →
    arrayRest f d (dumpsItems repr L xs ++ (newlineIndent L' ++ ']' :: t)) acc =
      some (.list (acc.reverse ++ JsonValue.mapFloatsItems g xs), t)
  | _, _, 0, _, _, _, _, _, _, _, hf => absurd hf (Nat.not_lt_zero _)
  | [], _, _ + 1, _, _, _, acc, _, _, _, _ => by
    rw [JsonValue.mapFloatsItems, List.append_nil, dumpsItems, List.nil_append, arrayRest,
      memberEnd_close (isWs_newlineIndent _) (show isWs ']' = false from rfl)]
  | x :: xs, L, f + 1, d, L', t, acc, ⟨hkx, hkxs⟩, ⟨hpx, hpxs⟩, hd, hf => by
    rw [List.forall_mem_cons] at hd
    simp only [dumpsItems, List.length_cons, List.length_append, length_newlineIndent] at hf
    simp only [dumpsItems, List.cons_append, List.append_assoc]
    have hx := scanOnce_dumpsAt x L f d _ hkx hpx hd.1 (by omega)
      (numberEnd_dumpsItems repr L L' xs (']' :: t))
    rw [arrayRest, memberEnd_comma (by decide), skipWs_append_of_ws (isWs_newlineIndent L),
      ((startsValue_dumpsAt hpx.self _).append _).skipWs]
    dsimp only
    rw [hx]
    dsimp only
    rw [arrayRest_dumpsItems xs L f d hkxs hpxs hd.2 (by omega)]
    simp [JsonValue.mapFloatsItems]

theorem objectRest_dumpsEntries : ∀ (es : List (List PyChar × JsonValue)) (L f d : Nat) {L' : Nat}
    {t : List Char} {acc : List (List PyChar × JsonValue)},
    JsonValue.EveryEntry JsonValue.DistinctKeys es → JsonValue.EveryEntry (Rereads repr g) es →
    (∀ e ∈ es, PairFree e.1) → (∀ e ∈ es, e.2.nesting ≤ d) →
    ((acc ++ es).map Prod.fst).Nodup → (dumpsEntries repr L es).length < f →
    objectRest f d (dumpsEntries repr L es ++ (newlineIndent L' ++ '\x7d' :: t)) acc =
      some (.dict (acc ++ JsonValue.mapFloatsEntries g es), t)
  | _, _, 0, _, _, _, _, _, _, _, _, _, hf => absurd hf (Nat.not_lt_zero _)
  | [], _, _ + 1, _, _, _, acc, _, _, _, _, _, _ => by
    rw [JsonValue.mapFloatsEntries, List.append_nil, dumpsEntries, List.nil_append, objectRest,
      memberEnd_close (isWs_newlineIndent _) (show isWs '\x7d' = false from rfl)]
  | (k, v) :: es, L, f + 1, d, L', t, acc, ⟨hkv, hkes⟩, ⟨hpv, hpes⟩, hpk, hd, hk, hf => by
    rw [List.forall_mem_cons] at hpk hd
    simp only [dumpsEntries, List.length_cons, List.length_append, length_newlineIndent,
      length_encodeBasestringAscii] at hf
    simp only [dumpsEntries, List.cons_append, List.append_assoc]
    obtain ⟨f, rfl⟩ : ∃ f', f = f' + 1 := ⟨f - 1, by omega⟩
    have hv := scanOnce_dumpsAt v L f d _ hkv hpv hd.1 (by omega)
      (numberEnd_dumpsEntries repr L L' es ('\x7d' :: t))
    have hnew : k ∉ acc.map Prod.fst := by
      rw [List.map_append, List.map_cons] at hk
      exact fun h => List.disjoint_of_nodup_append hk h (List.mem_cons_self k _)
    rw [objectRest, memberEnd_comma (by decide), skipWs_append_of_ws (isWs_newlineIndent L),
      (startsValue_encodeBasestringAscii k _).skipWs]
    dsimp only
    rw [objectMember_encode hpk.1 (by rwa [skipWs_cons_of_ws (show isWs ' ' = true from rfl),
        ((startsValue_dumpsAt hpv.self _).append _).skipWs]),
      dictSet_of_not_mem hnew,
      objectRest_dumpsEntries es L f d hkes hpes hpk.2 hd.2 (by simpa using hk) (by omega)]
    simp [JsonValue.mapFloatsEntries]

end

/-! ### What `json.dumps` writes -/

/-- A character `json.dumps` writes with `ensure_ascii` on: printable ASCII, or the newline of
the indent. -/
def asciiOut (c : Char) : Bool := c == '\n' || (' ' ≤ c && c ≤ '~')

theorem asciiOut_punct : asciiOut '\\' = true ∧ asciiOut 'u' = true ∧ asciiOut '"' = true ∧
    asciiOut '\n' = true ∧ asciiOut ' ' = true ∧ asciiOut '[' = true ∧ asciiOut ']' = true ∧
    asciiOut '\x7b' = true ∧ asciiOut '\x7d' = true ∧ asciiOut ',' = true ∧ asciiOut ':' = true := by
  decide

theorem asciiOut_hexDigit : ∀ d < 16, asciiOut (hexDigit d) = true := by decide

theorem asciiOut_hex4 (n : Nat) : (hex4 n).all asciiOut = true := by
  simp only [hex4, List.all_cons, List.all_nil, Bool.and_true,
    asciiOut_hexDigit _ (Nat.mod_lt _ (by decide : 0 < 16))]

theorem asciiOut_of_numChar {c : Char} (h : numChar c = true) : asciiOut c = true := by
  simp only [numChar, isDigit, Bool.or_eq_true, Bool.and_eq_true, decide_eq_true_eq,
    beq_iff_eq] at h
  rcases h with ((((⟨h₁, h₂⟩ | rfl) | rfl) | rfl) | rfl) | rfl
  · have h₁ : 48 ≤ c.toNat := h₁
    have h₂ : c.toNat ≤ 57 := h₂
    simp only [asciiOut, Bool.or_eq_true, Bool.and_eq_true, decide_eq_true_eq]
    exact .inr ⟨show 32 ≤ c.toNat by omega, show c.toNat ≤ 126 by omega⟩
  all_goals rfl

theorem asciiOut_of_scanNumber {s : List Char} {v : JsonValue} (h : scanNumber (s ++ []) = some (v, [])) :
    s.all asciiOut = true := by
  obtain ⟨p, hp, hc⟩ := scanNumber_eq_some h
  rw [List.append_cancel_right hp, List.all_eq_true]
  exact fun c hc' => asciiOut_of_numChar (hc c hc')

theorem asciiOut_encodeChar (c : Char) : (encodeChar c).all asciiOut = true := by
  unfold encodeChar
  split
  · next hs =>
    simp only [sChar, Bool.and_eq_true, decide_eq_true_eq] at hs
    simp [asciiOut, hs.1.1.1, hs.1.1.2]
  · unfold escapeUnichar
    by_cases h : c = '\\'; · subst h; rfl
    rw [if_neg h]
    by_cases h : c = '"'; · subst h; rfl
    rw [if_neg h]
    by_cases h : c = '\x08'; · subst h; rfl
    rw [if_neg h]
    by_cases h : c = '\x0c'; · subst h; rfl
    rw [if_neg h]
    by_cases h : c = '\n'; · subst h; rfl
    rw [if_neg h]
    by_cases h : c = '\r'; · subst h; rfl
    rw [if_neg h]
    by_cases h : c = '\t'; · subst h; rfl
    rw [if_neg h]
    split <;> simp [asciiOut_hex4, asciiOut_punct]

theorem asciiOut_encodePyChar (c : PyChar) : (encodePyChar c).all asciiOut = true := by
  cases c with
  | char c => exact asciiOut_encodeChar c
  | surrogate u => simp [encodePyChar, asciiOut_hex4, asciiOut_punct]

theorem asciiOut_encodeBasestringAscii (s : List PyChar) :
    (encodeBasestringAscii s).all asciiOut = true := by
  simp [encodeBasestringAscii, asciiOut_encodePyChar, asciiOut_punct]

theorem asciiOut_newlineIndent (L : Nat) : (newlineIndent L).all asciiOut = true := by
  simp [newlineIndent, List.all_replicate, asciiOut_punct]

mutual

/-- Every character `_iterencode` writes is printable ASCII or a newline. -/
theorem asciiOut_dumpsAt : ∀ (v : JsonValue) (L : Nat), v.Every (Rereads repr g) →
    (dumpsAt repr L v).all asciiOut = true
  | .null, _, _ | .bool true, _, _ | .bool false, _, _ | .float .nan, _, _
  | .float (.inf false), _, _ | .float (.inf true), _, _ | .list [], _, _ | .dict [], _, _ => rfl
  | .int _, _, hp => asciiOut_of_scanNumber (scanNumber_toString hp numberEnd_nil)
  | .float (.finite x), _, hp => asciiOut_of_scanNumber (hp [] numberEnd_nil)
  | .str s, _, _ => asciiOut_encodeBasestringAscii s
  | .list (x :: xs), L, ⟨_, hx, hxs⟩ => by
    simp [dumpsAt, asciiOut_newlineIndent, asciiOut_punct, asciiOut_dumpsAt x _ hx,
      asciiOut_dumpsItems xs _ hxs]
  | .dict ((k, v) :: es), L, ⟨_, hv, hes⟩ => by
    simp [dumpsAt, asciiOut_newlineIndent, asciiOut_punct, asciiOut_encodeBasestringAscii,
      asciiOut_dumpsAt v _ hv,
      asciiOut_dumpsEntries es _ hes]

theorem asciiOut_dumpsItems : ∀ (xs : List JsonValue) (L : Nat),
    JsonValue.EveryItem (Rereads repr g) xs → (dumpsItems repr L xs).all asciiOut = true
  | [], _, _ => rfl
  | x :: xs, L, ⟨hx, hxs⟩ => by
    simp [dumpsItems, asciiOut_newlineIndent, asciiOut_punct, asciiOut_dumpsAt x _ hx,
      asciiOut_dumpsItems xs _ hxs]

theorem asciiOut_dumpsEntries : ∀ (es : List (List PyChar × JsonValue)) (L : Nat),
    JsonValue.EveryEntry (Rereads repr g) es → (dumpsEntries repr L es).all asciiOut = true
  | [], _, _ => rfl
  | (k, v) :: es, L, ⟨hv, hes⟩ => by
    simp [dumpsEntries, asciiOut_newlineIndent, asciiOut_punct, asciiOut_encodeBasestringAscii,
      asciiOut_dumpsAt v _ hv, asciiOut_dumpsEntries es _ hes]

end

/-! ### `json.loads` of what `json.dumps` printed -/

theorem loads_of_scanOnce {d : Nat} {s : List Char} {v : JsonValue} (hs : StartsValue s)
    (h : scanOnce (s.length + 1) d s = some (v, [])) : loads d s = some v := by
  rw [loads, if_neg hs.head_ne, hs.skipWs, h]
  rfl

/-- `json.loads(json.dumps(v, indent=2))` is `v` with its floats as they print back, when no dict
repeats a key, every node reads back and `json.loads` has a level left for each level of `v`. -/
theorem loads_dumpsAt_mapFloats {v : JsonValue} {d : Nat} (hk : v.Every JsonValue.DistinctKeys)
    (hp : v.Every (Rereads repr g)) (hd : v.nesting ≤ d) :
    loads d (dumpsAt repr 0 v) = some (v.mapFloats g) := by
  refine loads_of_scanOnce (startsValue_dumpsAt hp.self 0) ?_
  have h := scanOnce_dumpsAt v 0 _ d [] hk hp hd (Nat.lt_succ_self _) numberEnd_nil
  rwa [List.append_nil] at h

end SpecTrace.Store
