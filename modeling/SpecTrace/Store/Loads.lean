import SpecTrace.Drift.Detect
import Mathlib.Tactic.NormNum.Ineq
import Mathlib.Tactic.NormNum.Pow

/-! `json.loads(s)`, with which `spec_diff.py` reads its previous report and the mapping
artifact: `JSONDecoder.decode` over the C scanner `scan_once_unicode`, with `parse_float`
`float`, `parse_int` `int` and `strict` on. A `JSONDecodeError`, the `ValueError` of an `int` of
more than 4300 digits and a `RecursionError` are all `none`; both callers catch every `Exception`.

An object is built by `PyDict_SetItem`, so a repeated key keeps its first place and takes the
last value (`Drift.dictSet`). A number with a fraction or an exponent is a `float`: its exact
value, or an infinity beyond the largest float. A `\uXXXX` escape of a surrogate that is not
joined to its pair is kept as a lone surrogate. The scanner recurses once per level of arrays
and objects, and `depth` is the number of levels the recursion limit leaves; the model's `fuel`
is the length of the text plus one, which no call can need more of. -/

namespace SpecTrace.Store

open Python Drift

/-! ### Whitespace and strings -/

/-- `IS_WHITESPACE(c)`. -/
def isWs (c : Char) : Bool := c == ' ' || c == '\t' || c == '\n' || c == '\r'

/-- The whitespace loops of the scanner and of `decode` (`WHITESPACE.match`). -/
def skipWs (s : List Char) : List Char := s.dropWhile isWs

/-- A hexadecimal digit of a `\uXXXX` escape, of either case. -/
def hexVal (c : Char) : Option Nat :=
  if '0' ≤ c ∧ c ≤ '9' then some (c.toNat - 48)
  else if 'a' ≤ c ∧ c ≤ 'f' then some (c.toNat - 87)
  else if 'A' ≤ c ∧ c ≤ 'F' then some (c.toNat - 55)
  else none

/-- The UTF-16 unit of the four digits of a `\uXXXX` escape: `c <<= 4; c |= digit`. -/
def hex4Val (a b c d : Char) : Option Nat := do
  let w ← hexVal a
  let x ← hexVal b
  let y ← hexVal c
  let z ← hexVal d
  pure (((w * 16 + x) * 16 + y) * 16 + z)

/-- The character of a backslash escape other than `\u`. -/
def simpleEscape (c : Char) : Option Char :=
  if c = '"' then some '"'
  else if c = '\\' then some '\\'
  else if c = '/' then some '/'
  else if c = 'b' then some '\x08'
  else if c = 'f' then some '\x0c'
  else if c = 'n' then some '\n'
  else if c = 'r' then some '\r'
  else if c = 't' then some '\t'
  else none

/-- The code points read so far, latest first, with the high surrogate held back, if any, as a
lone one. -/
def withPending : Option Nat → List PyChar → List PyChar
  | none, acc => acc
  | some h, acc => PyChar.ofUnit h :: acc

mutual

/-- `scanstring_unicode` after the opening quote, the code points so far in `acc`, latest first; a
high surrogate's escape waits in `pending` until the next one shows whether they join. -/
def scanString (pending : Option Nat) : List Char → List PyChar → Option (List PyChar × List Char)
  | [], _ => none
  | c :: r, acc =>
    if c = '"' then some ((withPending pending acc).reverse, r)
    else if c = '\\' then scanEscape pending r acc
    else if c.toNat ≤ 0x1F then none
    else scanString none r (.char c :: withPending pending acc)

/-- After a backslash: a low surrogate's `\uXXXX` right after a high one's joins it
(`Py_UNICODE_JOIN_SURROGATES`); any other unit is a code point, a lone surrogate included. -/
def scanEscape (pending : Option Nat) : List Char → List PyChar → Option (List PyChar × List Char)
  | [], _ => none
  | 'u' :: a :: b :: c :: d :: r, acc =>
    match hex4Val a b c d with
    | none => none
    | some n =>
      match pending, decide (0xDC00 ≤ n ∧ n ≤ 0xDFFF) with
      | some h, true =>
        scanString none r (.char (Char.ofNat (0x10000 + (h - 0xD800) * 0x400 + (n - 0xDC00))) :: acc)
      | _, _ =>
        if 0xD800 ≤ n ∧ n ≤ 0xDBFF then scanString (some n) r (withPending pending acc)
        else scanString none r (PyChar.ofUnit n :: withPending pending acc)
  | e :: r, acc =>
    match simpleEscape e with
    | some c => scanString none r (.char c :: withPending pending acc)
    | none => none

end

/-! ### Numbers -/

/-- A digit of `_match_number_unicode`: `'0'` to `'9'`. -/
def isDigit (c : Char) : Bool := '0' ≤ c && c ≤ '9'

/-- The value of a run of digits. -/
def decimal (ds : List Char) : Nat := ds.foldl (fun n d => 10 * n + (d.toNat - 48)) 0

/-- An optional minus sign. -/
def signPart : List Char → Bool × List Char
  | '-' :: r => (true, r)
  | s => (false, s)

/-- The integer part: `0`, or a digit `1` to `9` and every digit after it. -/
def intPart : List Char → Option (List Char × List Char)
  | [] => none
  | c :: r =>
    if c = '0' then some (['0'], r)
    else if isDigit c then some (c :: r.takeWhile isDigit, r.dropWhile isDigit)
    else none

/-- The digits of the fraction, when a digit follows the point. -/
def fracPart (s : List Char) : List Char × List Char :=
  match s with
  | '.' :: c :: r => if isDigit c then (c :: r.takeWhile isDigit, r.dropWhile isDigit) else ([], s)
  | _ => ([], s)

/-- The optional sign after an exponent mark. -/
def expSign : List Char → Bool × List Char
  | '-' :: r => (true, r)
  | '+' :: r => (false, r)
  | r => (false, r)

/-- The sign and the digits of the exponent: `e` or `E`, an optional sign, and at least one
digit; without a digit nothing is taken (`idx = e_start`). -/
def expPart (s : List Char) : Option (Bool × List Char) × List Char :=
  match s with
  | e :: r =>
    if e = 'e' ∨ e = 'E' then
      if ((expSign r).2.takeWhile isDigit).isEmpty then (none, s)
      else (some ((expSign r).1, (expSign r).2.takeWhile isDigit), (expSign r).2.dropWhile isDigit)
    else (none, s)
  | [] => (none, [])

/-- `float(numstr)` of a literal with sign `neg`, integer digits `i`, fraction digits `f` and
exponent `e`: its value, or an infinity when it rounds beyond the largest float. -/
def floatOfLiteral (neg : Bool) (i f : List Char) (e : Option (Bool × List Char)) : PyFloat :=
  let m : ℚ := (decimal (i ++ f) : ℚ) / 10 ^ f.length
  let q : ℚ :=
    match e with
    | none => m
    | some (false, ds) => m * 10 ^ decimal ds
    | some (true, ds) => m / 10 ^ decimal ds
  if 2 ^ 1024 - 2 ^ 970 ≤ q then .inf neg else .finite (if neg then -q else q)

/-- `_match_number_unicode`: `int(numstr)` without fraction and exponent, refusing more than 4300
digits (the sign not counted), else `float(numstr)`; and what follows the literal. -/
def scanNumber (s : List Char) : Option (JsonValue × List Char) :=
  (intPart (signPart s).2).bind fun (i, s₂) =>
    if (fracPart s₂).1 = [] ∧ (expPart (fracPart s₂).2).1 = none then
      if 4300 < i.length then none
      else some (.int (if (signPart s).1 then -(decimal i : Int) else decimal i), (fracPart s₂).2)
    else
      some (.float (floatOfLiteral (signPart s).1 i (fracPart s₂).1 (expPart (fracPart s₂).2).1),
        (expPart (fracPart s₂).2).2)

example : scanNumber "-0.25e+1,".toList =
    some (.float (floatOfLiteral true ['0'] ['2', '5'] (some (false, ['1']))), [',']) := by rfl
example : floatOfLiteral true ['0'] ['2', '5'] (some (false, ['1'])) = .finite (-5 / 2) := by
  simp [floatOfLiteral, decimal]
  norm_num
example : scanNumber "12e,".toList = some (.int 12, "e,".toList) := by rfl

/-! ### Values -/

/-- The names `scan_once_unicode` reads, and their values. -/
def names : List (List Char × JsonValue) :=
  [("null".toList, .null), ("true".toList, .bool true), ("false".toList, .bool false),
    ("NaN".toList, .float .nan), ("Infinity".toList, .float (.inf false)),
    ("-Infinity".toList, .float (.inf true))]

/-- `string[idx:idx + len(name)] == name` for the names. -/
def scanName (s : List Char) : Option (JsonValue × List Char) :=
  (names.find? fun n => n.1.isPrefixOf s).map fun n => (n.2, s.drop n.1.length)

/-- After a value in a container closed by `close`: `(true, rest)` at the closing bracket,
`(false, rest)` after a comma and the whitespace after it. -/
def memberEnd (close : Char) (s : List Char) : Option (Bool × List Char) :=
  match skipWs s with
  | c :: r => if c = close then some (true, r) else if c = ',' then some (false, skipWs r) else none
  | [] => none

/-- The `:` between a key and its value, with the whitespace around it. -/
def colon (s : List Char) : Option (List Char) :=
  match skipWs s with
  | ':' :: r => some (skipWs r)
  | _ => none

mutual

/-- `scan_once_unicode` with `depth` levels left: an array or object, even empty, raises
`RecursionError` at none, and its items are read one level down. -/
def scanOnce : Nat → Nat → List Char → Option (JsonValue × List Char)
  | 0, _, _ => none
  | fuel + 1, depth, s =>
    match s with
    | '"' :: r => (scanString none r []).map fun p => (.str p.1, p.2)
    | '[' :: r =>
      match depth with
      | 0 => none
      | depth + 1 =>
        match skipWs r with
        | ']' :: r' => some (.list [], r')
        | r' =>
          match scanOnce fuel depth r' with
          | some (v, r'') => arrayRest fuel depth r'' [v]
          | none => none
    | '\x7b' :: r =>
      match depth with
      | 0 => none
      | depth + 1 =>
        match skipWs r with
        | '\x7d' :: r' => some (.dict [], r')
        | r' => objectMember fuel depth r' []
    | _ =>
      match scanName s with
      | some p => some p
      | none => scanNumber s
termination_by structural fuel => fuel

/-- `_parse_array_unicode` after an item, with the items so far in `acc`, latest first. -/
def arrayRest : Nat → Nat → List Char → List JsonValue → Option (JsonValue × List Char)
  | 0, _, _, _ => none
  | fuel + 1, depth, s, acc =>
    match memberEnd ']' s with
    | some (true, r) => some (.list acc.reverse, r)
    | some (false, r) =>
      match scanOnce fuel depth r with
      | some (v, r') => arrayRest fuel depth r' (v :: acc)
      | none => none
    | none => none

/-- `_parse_object_unicode` where a key is expected, with the members so far in `acc`: the key,
the `:`, the value, and `PyDict_SetItem`. -/
def objectMember : Nat → Nat → List Char → List (List PyChar × JsonValue) →
    Option (JsonValue × List Char)
  | 0, _, _, _ => none
  | fuel + 1, depth, s, acc =>
    match s with
    | '"' :: r =>
      match scanString none r [] with
      | some (key, r₁) =>
        match colon r₁ with
        | some r₂ =>
          match scanOnce fuel depth r₂ with
          | some (v, r₃) => objectRest fuel depth r₃ (dictSet acc key v)
          | none => none
        | none => none
      | none => none
    | _ => none

/-- `_parse_object_unicode` after a member. -/
def objectRest : Nat → Nat → List Char → List (List PyChar × JsonValue) →
    Option (JsonValue × List Char)
  | 0, _, _, _ => none
  | fuel + 1, depth, s, acc =>
    match memberEnd '\x7d' s with
    | some (true, r) => some (.dict acc, r)
    | some (false, r) => objectMember fuel depth r acc
    | none => none

end

/-- `json.loads(s)` at a call that leaves `depth` levels to the recursion limit: a byte order
mark is refused; whitespace may surround the value and nothing else may follow it. -/
def loads (depth : Nat) (s : List Char) : Option JsonValue :=
  if s.head? = some '﻿' then none
  else
    match scanOnce (s.length + 1) depth (skipWs s) with
    | some (v, r) => if skipWs r = [] then some v else none
    | none => none

example : loads 2 " \x7b\"a\": [1, 2.5e-1], \"a\": null, \"b\\u00e9\": \"\\ud83d\\ude00\\udcff\"\x7d ".toList =
    some (.dict [(pyStr "a", .null), (pyStr "bé", .str (pyStr "😀" ++ [.surrogate 0x4FF]))]) := by rfl
example : loads 1 "[[]]".toList = none ∧ loads 2 "[[]]".toList = some (.list [.list []]) := ⟨rfl, rfl⟩

/-! ### What `json.loads` returns -/

theorem scanName_distinctKeys {s r : List Char} {v : JsonValue} (h : scanName s = some (v, r)) :
    v.Every JsonValue.DistinctKeys := by
  obtain ⟨n, hn, hv⟩ := Option.map_eq_some'.mp h
  have hmem := List.mem_of_find?_eq_some hn
  simp only [names, List.mem_cons, List.mem_singleton, List.not_mem_nil, or_false] at hmem
  rcases hmem with rfl | rfl | rfl | rfl | rfl | rfl <;> cases hv <;> trivial

theorem scanNumber_value {s r : List Char} {v : JsonValue} (h : scanNumber s = some (v, r)) :
    (∃ n, v = .int n) ∨ ∃ x, v = .float x := by
  obtain ⟨⟨i, s₂⟩, -, hv⟩ := Option.bind_eq_some.mp h
  dsimp only at hv
  split at hv
  · split at hv
    · cases hv
    · exact .inl ⟨_, (Prod.mk.inj (Option.some.inj hv)).1.symm⟩
  · exact .inr ⟨_, (Prod.mk.inj (Option.some.inj hv)).1.symm⟩

theorem scanNumber_distinctKeys {s r : List Char} {v : JsonValue} (h : scanNumber s = some (v, r)) :
    v.Every JsonValue.DistinctKeys := by
  rcases scanNumber_value h with ⟨_, rfl⟩ | ⟨_, rfl⟩ <;> trivial

mutual

theorem scanOnce_distinctKeys : ∀ {f d : Nat} {s r : List Char} {v : JsonValue},
    scanOnce f d s = some (v, r) → v.Every JsonValue.DistinctKeys
  | 0, _, _, _, _, h => nomatch h
  | f + 1, d, s, r, v, h => by
    unfold scanOnce at h
    split at h
    · obtain ⟨_, -, hv⟩ := Option.map_eq_some'.mp h
      cases hv
      trivial
    · split at h
      · cases h
      · split at h
        · cases h
          exact ⟨trivial, trivial⟩
        · split at h
          · next v' r' hv' =>
            exact arrayRest_distinctKeys h fun x hx =>
              (List.mem_singleton.mp hx) ▸ scanOnce_distinctKeys hv'
          · cases h
    · split at h
      · cases h
      · split at h
        · cases h
          exact ⟨List.nodup_nil, trivial⟩
        · exact objectMember_distinctKeys h List.nodup_nil fun _ h => nomatch h
    · split at h
      · next hn => cases h; exact scanName_distinctKeys hn
      · exact scanNumber_distinctKeys h
termination_by structural f => f

theorem arrayRest_distinctKeys : ∀ {f d : Nat} {s r : List Char} {acc : List JsonValue}
    {v : JsonValue}, arrayRest f d s acc = some (v, r) →
      (∀ x ∈ acc, x.Every JsonValue.DistinctKeys) → v.Every JsonValue.DistinctKeys
  | 0, _, _, _, _, _, h, _ => nomatch h
  | f + 1, d, s, r, acc, v, h, hacc => by
    unfold arrayRest at h
    split at h
    · cases h
      exact JsonValue.every_list_iff.mpr ⟨trivial, fun x hx => hacc x (List.mem_reverse.mp hx)⟩
    · split at h
      · next v' r' hv' =>
        exact arrayRest_distinctKeys h (List.forall_mem_cons.mpr ⟨scanOnce_distinctKeys hv', hacc⟩)
      · cases h
    · cases h
termination_by structural f => f

theorem objectMember_distinctKeys : ∀ {f d : Nat} {s r : List Char}
    {acc : List (List PyChar × JsonValue)} {v : JsonValue}, objectMember f d s acc = some (v, r) →
      (acc.map Prod.fst).Nodup → (∀ e ∈ acc, e.2.Every JsonValue.DistinctKeys) →
      v.Every JsonValue.DistinctKeys
  | 0, _, _, _, _, _, h, _, _ => nomatch h
  | f + 1, d, s, r, acc, v, h, hk, hacc => by
    unfold objectMember at h
    split at h
    · split at h
      · next key _ _ =>
        split at h
        · split at h
          · next v' r₃ hv' =>
            refine objectRest_distinctKeys h (nodup_dictSet hk key v') fun e he => ?_
            rcases mem_dictSet he with he | rfl
            · exact hacc e he
            · exact scanOnce_distinctKeys hv'
          · cases h
        · cases h
      · cases h
    · cases h
termination_by structural f => f

theorem objectRest_distinctKeys : ∀ {f d : Nat} {s r : List Char}
    {acc : List (List PyChar × JsonValue)} {v : JsonValue}, objectRest f d s acc = some (v, r) →
      (acc.map Prod.fst).Nodup → (∀ e ∈ acc, e.2.Every JsonValue.DistinctKeys) →
      v.Every JsonValue.DistinctKeys
  | 0, _, _, _, _, _, h, _, _ => nomatch h
  | f + 1, d, s, r, acc, v, h, hk, hacc => by
    unfold objectRest at h
    split at h
    · cases h
      exact JsonValue.every_dict_iff.mpr ⟨hk, hacc⟩
    · exact objectMember_distinctKeys h hk hacc
    · cases h

termination_by structural f => f
end

/-- What a successful `json.loads` did: no byte order mark, one value after the whitespace, and
only whitespace after it. -/
theorem scanOnce_of_loads {d : Nat} {s : List Char} {v : JsonValue} (h : loads d s = some v) :
    s.head? ≠ some '\uFEFF' ∧
      ∃ r, scanOnce (s.length + 1) d (skipWs s) = some (v, r) ∧ skipWs r = [] := by
  unfold loads at h
  split_ifs at h with hb
  split at h
  · next r hs =>
    split_ifs at h with hr
    cases h
    exact ⟨hb, r, hs, hr⟩
  · cases h

end SpecTrace.Store
