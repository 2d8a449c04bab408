import SpecTrace.Store.Dumps
import SpecTrace.Store.Loads
import Mathlib.Tactic.Ring
import Mathlib.Data.Nat.Digits

/-! What each scanner of `json.loads` makes of what `json.dumps` prints: whitespace and the
separators, a string encoded by `encode_basestring_ascii`, an `int` printed by `int.__repr__`,
the names, and a float printed by `float.__repr__` as a number literal of its value or of some other value `g x` (`RereadsAs`). A lone surrogate reads back unless it is a
high one right before a low one (`PairFree`), and an `int` unless it has more than 4300 digits.
A number is followed by something that cannot extend it (`NumberEnd`): after a value
`json.dumps` writes a comma, a newline or nothing. -/

namespace SpecTrace.Store

open Python Drift

/-! ### Whitespace and separators -/

theorem skipWs_cons_of_not {c : Char} (hc : isWs c = false) (s : List Char) :
    skipWs (c :: s) = c :: s :=
  List.dropWhile_cons_of_neg (by simp [hc])

theorem skipWs_cons_of_ws {c : Char} (hc : isWs c = true) (s : List Char) :
    skipWs (c :: s) = skipWs s :=
  List.dropWhile_cons_of_pos hc

theorem skipWs_append_of_ws {w : List Char} (hw : ∀ c ∈ w, isWs c = true) (s : List Char) :
    skipWs (w ++ s) = skipWs s :=
  List.dropWhile_append_of_pos hw

theorem isWs_newlineIndent (level : Nat) : ∀ c ∈ newlineIndent level, isWs c = true := by
  intro c hc
  rcases List.mem_cons.mp hc with rfl | hc
  · rfl
  · rw [List.eq_of_mem_replicate hc]; rfl

theorem length_newlineIndent (level : Nat) : (newlineIndent level).length = 2 * level + 1 := by
  simp [newlineIndent]

theorem memberEnd_close {close : Char} {w : List Char} (hw : ∀ c ∈ w, isWs c = true)
    (hc : isWs close = false) (t : List Char) : memberEnd close (w ++ close :: t) = some (true, t) := by
  rw [memberEnd, skipWs_append_of_ws hw, skipWs_cons_of_not hc]
  exact if_pos rfl

theorem memberEnd_comma {close : Char} (hc : close ≠ ',') (t : List Char) :
    memberEnd close (',' :: t) = some (false, skipWs t) := by
  rw [memberEnd, skipWs_cons_of_not (show isWs ',' = false from rfl)]
  exact (if_neg hc.symm).trans (if_pos rfl)

/-! ### Strings -/

theorem hexVal_hexDigit : ∀ d < 16, hexVal (hexDigit d) = some d := by decide

theorem hex4_digits_value {v : Nat} (h : v < 0x10000) :
    ((v / 4096 % 16 * 16 + v / 256 % 16) * 16 + v / 16 % 16) * 16 + v % 16 = v := by
  rw [Nat.mod_eq_of_lt (by omega : v / 4096 < 16)]
  calc ((v / 4096 * 16 + v / 256 % 16) * 16 + v / 16 % 16) * 16 + v % 16
      = ((v / 256 / 16 * 16 + v / 256 % 16) * 16 + v / 16 % 16) * 16 + v % 16 := by
        rw [Nat.div_div_eq_div_mul]
    _ = (v / 16 / 16 * 16 + v / 16 % 16) * 16 + v % 16 := by
        rw [Nat.div_add_mod', Nat.div_div_eq_div_mul]
    _ = v := by rw [Nat.div_add_mod', Nat.div_add_mod']

theorem hex4Val_hex4 {v : Nat} (h : v < 0x10000) :
    hex4Val (hexDigit (v / 4096 % 16)) (hexDigit (v / 256 % 16)) (hexDigit (v / 16 % 16))
      (hexDigit (v % 16)) = some v := by
  simp only [hex4Val, hexVal_hexDigit _ (Nat.mod_lt _ (by decide : 0 < 16)), Option.bind_eq_bind,
    Option.some_bind]
  exact congrArg some (hex4_digits_value h)

theorem scanString_backslash (p : Option Nat) (r : List Char) (acc : List PyChar) :
    scanString p ('\\' :: r) acc = scanEscape p r acc := by
  rw [scanString, if_neg (by decide), if_pos rfl]

theorem scanEscape_unit {p : Option Nat} {n : Nat} (hn : n < 0x10000) (hh : ¬(0xD800 ≤ n ∧ n ≤ 0xDBFF))
    (hl : p = none ∨ ¬(0xDC00 ≤ n ∧ n ≤ 0xDFFF)) (r : List Char) (acc : List PyChar) :
    scanEscape p ('u' :: (hex4 n ++ r)) acc = scanString none r (PyChar.ofUnit n :: withPending p acc) := by
  simp only [hex4, List.cons_append, List.nil_append]
  rw [scanEscape, hex4Val_hex4 hn]
  dsimp only
  rcases hl with rfl | hl
  · exact if_neg hh
  · rw [decide_eq_false hl]
    cases p <;> exact if_neg hh

theorem scanEscape_high (p : Option Nat) {n : Nat} (hh : 0xD800 ≤ n ∧ n ≤ 0xDBFF) (r : List Char)
    (acc : List PyChar) : scanEscape p ('u' :: (hex4 n ++ r)) acc = scanString (some n) r (withPending p acc) := by
  simp only [hex4, List.cons_append, List.nil_append]
  rw [scanEscape, hex4Val_hex4 (by omega)]
  dsimp only
  rw [decide_eq_false (by omega)]
  cases p <;> exact if_pos hh

theorem scanEscape_join (h : Nat) {n : Nat} (hl : 0xDC00 ≤ n ∧ n ≤ 0xDFFF) (r : List Char)
    (acc : List PyChar) : scanEscape (some h) ('u' :: (hex4 n ++ r)) acc =
      scanString none r (.char (Char.ofNat (0x10000 + (h - 0xD800) * 0x400 + (n - 0xDC00))) :: acc) := by
  simp only [hex4, List.cons_append, List.nil_append]
  rw [scanEscape, hex4Val_hex4 (by omega)]
  dsimp only
  rw [decide_eq_true hl]

theorem scanString_encodeChar (p : Option Nat) (c : Char) (r : List Char) (acc : List PyChar) :
    scanString p (encodeChar c ++ r) acc = scanString none r (.char c :: withPending p acc) := by
  unfold encodeChar
  split
  · next hs =>
    simp only [sChar, Bool.and_eq_true, decide_eq_true_eq, bne_iff_ne, ne_eq] at hs
    obtain ⟨⟨⟨hlo, -⟩, hb⟩, hq⟩ := hs
    have hlo : ¬c.toNat ≤ 0x1F := fun h => absurd (show 32 ≤ c.toNat from hlo) (by omega)
    rw [List.singleton_append, scanString, if_neg hq, if_neg hb, if_neg hlo]
  · unfold escapeUnichar
    -- the seven escapes by name
    by_cases h : c = '\\'; · subst h; rfl
    rw [if_neg h]
    by_cases h : c = '"'; · subst h; rfl
    rw [if_neg h]
    by_cases h : c = '\x08'; · subst h; rfl
    rw [if_neg h]
    by_cases h : c = '\x0c'; · subst h; rfl
    rw [if_neg h]
    by_cases h : c = '\n'; · subst h; rfl
    rw [if_neg h]
    by_cases h : c = '\r'; · subst h; rfl
    rw [if_neg h]
    by_cases h : c = '\t'; · subst h; rfl
    rw [if_neg h]
    have hv := @PyChar.toNat_char_lt c
    by_cases h : c.toNat < 0x10000
    · rw [if_pos h, List.cons_append, List.cons_append, scanString_backslash,
        scanEscape_unit h (by omega) (.inr (by omega)), PyChar.ofUnit_char h]
    · -- a surrogate pair: the high unit is held back, then joined to the low one
      have hc : c.toNat < 0x110000 :=
        (show c.toNat < 0xD800 ∨ (0xDFFF < c.toNat ∧ c.toNat < 0x110000) from c.valid).elim (by omega) (·.2)
      simp only [if_neg h, List.cons_append, List.append_assoc]
      rw [scanString_backslash, scanEscape_high _ (by omega), scanString_backslash,
        scanEscape_join _ (by omega), show 0x10000 + (0xD800 - 0x40 + c.toNat / 1024 - 0xD800) * 0x400 +
          (0xDC00 + c.toNat % 1024 - 0xDC00) = c.toNat by omega, Char.ofNat_toNat]

/-- Each code point reads back from what `ascii_escape_unichar` writes of it: a high surrogate is
held back, and any other code point follows the one held back, which a low surrogate may not. -/
theorem scanString_encodePyChar {p : Option Nat} {x : PyChar} (hx : p.isSome → x.isLow = false)
    (r : List Char) (acc : List PyChar) : scanString p (encodePyChar x ++ r) acc =
      if x.isHigh then scanString (some x.toNat) r (withPending p acc)
      else scanString none r (x :: withPending p acc) := by
  cases x with
  | char c => exact scanString_encodeChar p c r acc
  | surrogate u =>
    have hu := u.isLt
    rw [encodePyChar, List.cons_append, List.cons_append, scanString_backslash]
    by_cases hh : u.val < 0x400
    · rw [scanEscape_high p (by omega), if_pos (show (PyChar.surrogate u).isHigh = true from decide_eq_true hh)]
      rfl
    · have hl : p = none ∨ ¬(0xDC00 ≤ 0xD800 + u.val ∧ 0xD800 + u.val ≤ 0xDFFF) := by
        cases p with
        | none => exact .inl rfl
        | some _ => exact absurd (hx rfl) (by simp [PyChar.isLow]; omega)
      rw [scanEscape_unit (by omega) (by omega) hl, PyChar.ofUnit_surrogate, if_neg (by simp [PyChar.isHigh]; omega)]

/-- No high surrogate right before a low one: `json.loads` would join their escapes into one
character. -/
def PairFree (s : List PyChar) : Prop := s.Chain' fun a b => (a.isHigh && b.isLow) = false

theorem pairFree_of_not_isHigh : ∀ {s : List PyChar}, (∀ c ∈ s, c.isHigh = false) → PairFree s
  | [], _ => List.chain'_nil
  | a :: _, h => List.chain'_cons'.mpr ⟨fun _ _ => by rw [h a (.head _), Bool.false_and],
      pairFree_of_not_isHigh fun c hc => h c (.tail _ hc)⟩

theorem pairFree_ofChars (s : List Char) : PairFree (ofChars s) :=
  pairFree_of_not_isHigh fun c hc => by obtain ⟨c, -, rfl⟩ := List.mem_map.mp hc; rfl

theorem ofUnit_toNat_of_isHigh {x : PyChar} (h : x.isHigh = true) : PyChar.ofUnit x.toNat = x := by
  cases x with
  | char c => cases h
  | surrogate u => exact PyChar.ofUnit_surrogate u

/-- A string with no high surrogate before a low one reads back from its encoding, after a
surrogate held back that the string's first code point does not join. -/
theorem scanString_encode {s : List PyChar} (hs : PairFree s) {p : Option Nat}
    (hp : p.isSome → ∀ y ∈ s.head?, y.isLow = false) (t : List Char) (acc : List PyChar) :
    scanString p (s.flatMap encodePyChar ++ '"' :: t) acc = some ((withPending p acc).reverse ++ s, t) := by
  induction s generalizing p acc with
  | nil => rw [List.flatMap_nil, List.nil_append, scanString, if_pos rfl, List.append_nil]
  | cons x s ih =>
    obtain ⟨hnext, hs⟩ := List.chain'_cons'.mp hs
    rw [List.flatMap_cons, List.append_assoc, scanString_encodePyChar (fun h => hp h x rfl)]
    split_ifs with hx
    · have hp' : (some x.toNat).isSome → ∀ y ∈ s.head?, y.isLow = false := fun _ y hy => by
        simpa [hx] using hnext y hy
      rw [ih hs hp', withPending, ofUnit_toNat_of_isHigh hx]
      simp
    · rw [ih hs fun h => by cases h]
      simp [withPending]

theorem encodeBasestringAscii_append (s : List PyChar) (t : List Char) :
    encodeBasestringAscii s ++ t = '"' :: (s.flatMap encodePyChar ++ '"' :: t) := by
  simp [encodeBasestringAscii]

theorem scanOnce_encodeBasestringAscii (f d : Nat) {s : List PyChar} (hs : PairFree s) (t : List Char) :
    scanOnce (f + 1) d (encodeBasestringAscii s ++ t) = some (.str s, t) := by
  rw [encodeBasestringAscii_append, scanOnce, scanString_encode hs fun h => by cases h]
  rfl

/-! ### Numbers -/

/-- What may follow a number without extending it: nothing, or a character that is not a
digit, a point or an exponent mark. -/
def NumberEnd (t : List Char) : Prop :=
  ∀ c ∈ t.head?, isDigit c = false ∧ c ≠ '.' ∧ c ≠ 'e' ∧ c ≠ 'E'

theorem numberEnd_nil : NumberEnd [] := fun _ h => nomatch h

theorem numberEnd_cons {c : Char} (hc : isDigit c = false ∧ c ≠ '.' ∧ c ≠ 'e' ∧ c ≠ 'E')
    (t : List Char) : NumberEnd (c :: t) := by
  intro c' h
  cases h
  exact hc

theorem digits_append {ds t : List Char} (hds : ∀ c ∈ ds, isDigit c = true) (ht : NumberEnd t) :
    (ds ++ t).takeWhile isDigit = ds ∧ (ds ++ t).dropWhile isDigit = t := by
  rw [List.takeWhile_append_of_pos hds, List.dropWhile_append_of_pos hds]
  cases t with
  | nil => simp
  | cons c t =>
    have hc := (ht c rfl).1
    rw [List.takeWhile_cons_of_neg (by simp [hc]), List.dropWhile_cons_of_neg (by simp [hc]),
      List.append_nil]
    exact ⟨rfl, rfl⟩

theorem fracPart_of_numberEnd {t : List Char} (ht : NumberEnd t) : fracPart t = ([], t) := by
  unfold fracPart
  split
  · exact absurd rfl (ht '.' rfl).2.1
  · rfl

theorem expPart_of_numberEnd {t : List Char} (ht : NumberEnd t) : expPart t = (none, t) := by
  cases t with
  | nil => rfl
  | cons c t =>
    have hc := ht c rfl
    unfold expPart
    exact if_neg (by rintro (rfl | rfl) <;> simp at hc)

theorem foldl_decimal (b : List Char) (x : Nat) :
    b.foldl (fun n d => 10 * n + (d.toNat - 48)) x =
      x * 10 ^ b.length + b.foldl (fun n d => 10 * n + (d.toNat - 48)) 0 := by
  induction b generalizing x with
  | nil => simp
  | cons d b ih =>
    rw [List.foldl_cons, List.foldl_cons, ih, ih (10 * 0 + _), List.length_cons, pow_succ]
    ring

theorem decimal_append (a b : List Char) : decimal (a ++ b) = decimal a * 10 ^ b.length + decimal b := by
  rw [decimal, List.foldl_append, foldl_decimal]
  rfl

theorem digitChar_spec : ∀ d < 10, isDigit (Nat.digitChar d) = true ∧
    decimal [Nat.digitChar d] = d ∧ (Nat.digitChar d = '0' → d = 0) := by
  decide

theorem toDigitsCore_spec : ∀ (fuel n : Nat) (ds : List Char), n < fuel →
    ∃ d r, Nat.toDigitsCore 10 fuel n ds = d :: r ++ ds ∧ isDigit d = true ∧
      (∀ c ∈ r, isDigit c = true) ∧ (d = '0' → n = 0 ∧ r = []) ∧ decimal (d :: r) = n
  | 0, n, _, h => absurd h (Nat.not_lt_zero n)
  | fuel + 1, n, ds, h => by
    obtain ⟨hd, hdec, h0⟩ := digitChar_spec (n % 10) (Nat.mod_lt _ (by decide))
    rw [Nat.toDigitsCore]
    split
    · next hn =>
      refine ⟨_, [], rfl, hd, by simp, fun h => ⟨by have := h0 h; omega, rfl⟩, ?_⟩
      rw [hdec]
      omega
    · next hn =>
      obtain ⟨d', r', he, hd', hr', h0', hdec'⟩ := toDigitsCore_spec fuel (n / 10) _ (by omega)
      refine ⟨d', r' ++ [Nat.digitChar (n % 10)], by rw [he]; simp, hd', ?_,
        fun h => absurd (h0' h).1 hn, ?_⟩
      · intro c hc
        rcases List.mem_append.mp hc with hc | hc
        · exact hr' c hc
        · rw [List.mem_singleton.mp hc]; exact hd
      · rw [← List.cons_append, decimal_append, hdec', hdec, List.length_singleton, pow_one]
        omega

theorem intPart_toDigits (m : Nat) {t : List Char} (ht : NumberEnd t) :
    intPart (Nat.toDigits 10 m ++ t) = some (Nat.toDigits 10 m, t) ∧
      decimal (Nat.toDigits 10 m) = m ∧ ∃ d r, Nat.toDigits 10 m = d :: r ∧ isDigit d = true := by
  obtain ⟨d, r, he, hd, hr, h0, hdec⟩ := toDigitsCore_spec (m + 1) m [] (Nat.lt_succ_self m)
  rw [List.append_nil] at he
  rw [Nat.toDigits, he]
  refine ⟨?_, hdec, d, r, rfl, hd⟩
  by_cases hd0 : d = '0'
  · obtain ⟨-, rfl⟩ := h0 hd0
    subst hd0
    rfl
  · rw [List.cons_append, intPart, if_neg hd0, if_pos hd, (digits_append hr ht).1,
      (digits_append hr ht).2]

/-- `int.__repr__` of an `int` within the digit limit read back as the `int`. -/
theorem scanNumber_toString {n : Int} (hn : intReprOk n = true) {t : List Char} (ht : NumberEnd t) :
    scanNumber ((toString n).toList ++ t) = some (.int n, t) := by
  have hlen := Nat.not_lt.mpr (of_decide_eq_true hn)
  cases n with
  | ofNat m =>
    obtain ⟨hi, hdec, d, r, hdr, hd⟩ := intPart_toDigits m ht
    have hsign : signPart (Nat.toDigits 10 m ++ t) = (false, Nat.toDigits 10 m ++ t) := by
      rw [hdr, List.cons_append, signPart]
      intro _ h
      exact absurd hd (by rw [(List.cons.inj h).1]; decide)
    show scanNumber (Nat.toDigits 10 m ++ t) = _
    rw [scanNumber, hsign, hi, Option.some_bind]
    dsimp only
    rw [fracPart_of_numberEnd ht, expPart_of_numberEnd ht, if_pos ⟨rfl, rfl⟩,
      if_neg (show ¬4300 < (Nat.toDigits 10 m).length from hlen), hdec]
    rfl
  | negSucc m =>
    obtain ⟨hi, hdec, -⟩ := intPart_toDigits (m + 1) ht
    show scanNumber ('-' :: (Nat.toDigits 10 (m + 1) ++ t)) = _
    rw [scanNumber, signPart, hi, Option.some_bind]
    dsimp only
    rw [fracPart_of_numberEnd ht, expPart_of_numberEnd ht, if_pos ⟨rfl, rfl⟩,
      if_neg (show ¬4300 < (Nat.toDigits 10 (m + 1)).length from hlen), hdec]
    rfl

theorem intPart_head {s i r : List Char} (h : intPart s = some (i, r)) :
    ∃ c s', s = c :: s' ∧ isDigit c = true := by
  cases s with
  | nil => cases h
  | cons c s' =>
    refine ⟨c, s', rfl, ?_⟩
    rw [intPart] at h
    split_ifs at h with h₀ h₁
    · rw [h₀]; rfl
    · exact h₁

theorem scanNumber_head {s : List Char} {p : JsonValue × List Char} (h : scanNumber s = some p) :
    ∃ c r, s = c :: r ∧ (isDigit c = true ∨ c = '-' ∧ ∃ d r', r = d :: r' ∧ isDigit d = true) := by
  obtain ⟨⟨i, s₂⟩, hi, -⟩ := Option.bind_eq_some.mp h
  cases s with
  | nil => cases hi
  | cons c r =>
    by_cases hc : c = '-'
    · subst hc
      obtain ⟨d, r', hr, hd⟩ := intPart_head hi
      exact ⟨'-', r, rfl, .inr ⟨rfl, d, r', hr, hd⟩⟩
    · rw [signPart] at hi
      · obtain ⟨c', s', hcs, hd⟩ := intPart_head hi
        exact ⟨c, r, rfl, .inl ((List.cons.inj hcs).1 ▸ hd)⟩
      · intro _ h
        exact hc (List.cons.inj h).1

theorem names_nonempty : ∀ n ∈ names, n.1 ≠ [] := by decide

theorem names_heads : names.map (fun n => n.1.head?) =
    [some 'n', some 't', some 'f', some 'N', some 'I', some '-'] := rfl

theorem isPrefixOf_cons_cons {a c : Char} {l r : List Char} (h : (a :: l).isPrefixOf (c :: r) = true) :
    a = c ∧ l.isPrefixOf r = true := by
  simpa [List.isPrefixOf] using h

theorem scanName_of_scanNumber {s : List Char} {p : JsonValue × List Char}
    (h : scanNumber s = some p) : scanName s = none := by
  obtain ⟨c, r, rfl, hc⟩ := scanNumber_head h
  rw [scanName, List.find?_eq_none.mpr, Option.map_none']
  intro n hn hpre
  obtain ⟨a, l, hal⟩ := List.exists_cons_of_ne_nil (names_nonempty n hn)
  have hhead : n.1.head? ∈ names.map (fun n => n.1.head?) := List.mem_map_of_mem _ hn
  rw [names_heads, hal] at hhead
  rw [hal] at hpre
  obtain ⟨rfl, hl⟩ := isPrefixOf_cons_cons hpre
  rcases hc with hc | ⟨rfl, d, r', rfl, hd⟩
  · simp only [List.head?_cons, List.mem_cons, Option.some.injEq, List.mem_singleton,
      List.not_mem_nil, or_false] at hhead
    rcases hhead with rfl | rfl | rfl | rfl | rfl | rfl <;> exact absurd hc (by decide)
  · -- only `-Infinity` starts with `-`, and a digit is not its `I`
    have hn' : n ∈ names := hn
    simp only [names, List.mem_cons, List.mem_singleton, List.not_mem_nil, or_false] at hn'
    rcases hn' with rfl | rfl | rfl | rfl | rfl | rfl <;> cases hal
    obtain ⟨rfl, -⟩ := isPrefixOf_cons_cons hl
    exact absurd hd (by decide)

/-- A number at the head is what `scan_once_unicode` reads there. -/
theorem scanOnce_of_scanNumber {s : List Char} {p : JsonValue × List Char}
    (h : scanNumber s = some p) (f d : Nat) : scanOnce (f + 1) d s = some p := by
  have hname := scanName_of_scanNumber h
  obtain ⟨c, r, rfl, hc⟩ := scanNumber_head h
  unfold scanOnce
  split
  · next r' he => rcases hc with hc | ⟨hc, -⟩ <;> cases (List.cons.inj he).1 <;> cases hc
  · next r' he => rcases hc with hc | ⟨hc, -⟩ <;> cases (List.cons.inj he).1 <;> cases hc
  · next r' he => rcases hc with hc | ⟨hc, -⟩ <;> cases (List.cons.inj he).1 <;> cases hc
  · rw [hname]
    exact h

/-- A character of a number literal. -/
def numChar (c : Char) : Bool :=
  isDigit c || c == '-' || c == '+' || c == '.' || c == 'e' || c == 'E'

theorem numChar_of_isDigit {c : Char} (h : isDigit c = true) : numChar c = true := by
  simp [numChar, h]

theorem numChar_takeWhile {c : Char} {r : List Char} (h : c ∈ r.takeWhile isDigit) :
    numChar c = true :=
  numChar_of_isDigit (List.mem_takeWhile_imp h)

theorem signPart_eq (s : List Char) :
    ∃ p, s = p ++ (signPart s).2 ∧ ∀ c ∈ p, numChar c = true := by
  unfold signPart
  split
  · exact ⟨['-'], rfl, by decide⟩
  · exact ⟨[], rfl, by simp⟩

theorem intPart_eq_some {s i r : List Char} (h : intPart s = some (i, r)) :
    s = i ++ r ∧ ∀ c ∈ i, numChar c = true := by
  cases s with
  | nil => cases h
  | cons c s' =>
    rw [intPart] at h
    split_ifs at h with h₀ h₁ <;> cases h
    · exact ⟨h₀ ▸ rfl, by decide⟩
    · refine ⟨by rw [List.cons_append, List.takeWhile_append_dropWhile], fun x hx => ?_⟩
      rcases List.mem_cons.mp hx with rfl | hx
      · exact numChar_of_isDigit h₁
      · exact numChar_takeWhile hx

theorem fracPart_eq (s : List Char) :
    ∃ p, s = p ++ (fracPart s).2 ∧ ∀ c ∈ p, numChar c = true := by
  unfold fracPart
  split
  · next c r =>
    split_ifs with hc
    · refine ⟨'.' :: c :: r.takeWhile isDigit, by simp, fun x hx => ?_⟩
      rcases hx with _ | ⟨_, _ | ⟨_, hx⟩⟩
      · rfl
      · exact numChar_of_isDigit hc
      · exact numChar_takeWhile hx
    · exact ⟨[], rfl, by simp⟩
  · exact ⟨[], rfl, by simp⟩

theorem expSign_eq (s : List Char) :
    ∃ p, s = p ++ (expSign s).2 ∧ ∀ c ∈ p, numChar c = true := by
  unfold expSign
  split
  · exact ⟨['-'], rfl, by decide⟩
  · exact ⟨['+'], rfl, by decide⟩
  · exact ⟨[], rfl, by simp⟩

theorem expPart_eq (s : List Char) :
    ∃ p, s = p ++ (expPart s).2 ∧ ∀ c ∈ p, numChar c = true := by
  match s with
  | [] => exact ⟨[], rfl, by simp⟩
  | e :: r =>
    rw [expPart]
    split_ifs with he hd
    · exact ⟨[], rfl, by simp⟩
    · obtain ⟨q, hq, hqc⟩ := expSign_eq r
      refine ⟨e :: q ++ (expSign r).2.takeWhile isDigit, ?_, fun x hx => ?_⟩
      · conv_lhs => rw [hq, ← List.takeWhile_append_dropWhile isDigit (expSign r).2]
        simp
      · rcases List.mem_append.mp hx with hx | hx
        · rcases List.mem_cons.mp hx with rfl | hx
          · rcases he with rfl | rfl <;> rfl
          · exact hqc x hx
        · exact numChar_takeWhile hx
    · exact ⟨[], rfl, by simp⟩

theorem scanNumber_eq_some {s t : List Char} {v : JsonValue} (h : scanNumber s = some (v, t)) :
    ∃ p, s = p ++ t ∧ ∀ c ∈ p, numChar c = true := by
  obtain ⟨⟨i, s₂⟩, hi, hv⟩ := Option.bind_eq_some.mp h
  obtain ⟨p₁, hs, hp₁⟩ := signPart_eq s
  obtain ⟨hs₂, hi⟩ := intPart_eq_some hi
  obtain ⟨p₃, hs₃, hp₃⟩ := fracPart_eq s₂
  obtain ⟨p₄, hs₄, hp₄⟩ := expPart_eq (fracPart s₂).2
  have hall : ∀ c ∈ p₁ ++ i ++ p₃ ++ p₄, numChar c = true := by
    simp only [List.mem_append]
    rintro c (((hc | hc) | hc) | hc)
    exacts [hp₁ c hc, hi c hc, hp₃ c hc, hp₄ c hc]
  have e₃ : s = p₁ ++ i ++ p₃ ++ (fracPart s₂).2 := by
    rw [List.append_assoc, List.append_assoc, ← hs₃, ← hs₂]
    exact hs
  have e₄ : s = p₁ ++ i ++ p₃ ++ p₄ ++ (expPart (fracPart s₂).2).2 := by
    rw [List.append_assoc _ p₄, ← hs₄]
    exact e₃
  dsimp only at hv
  split at hv
  · split at hv <;> cases hv
    exact ⟨_, e₃, fun c hc => hall c (List.mem_append_left _ hc)⟩
  · cases hv
    exact ⟨_, e₄, hall⟩

/-! ### Floats -/

/-- What `json.loads` needs of a printed node to read it back, floats as `g` makes them: an `int`
within the digit limit, a float that rereads, and strings and keys that are `PairFree`. -/
def RereadsAs (repr : ℚ → List Char) (g : ℚ → ℚ) (x : ℚ) : Prop :=
  ∀ t, NumberEnd t → scanNumber (repr x ++ t) = some (.float (.finite (g x)), t)

theorem rereadsAs_zero (x : ℚ) : RereadsAs (fun _ => "0.0".toList) (fun _ => 0) x := by
  intro t ht
  have hdigits : t.takeWhile isDigit = [] ∧ t.dropWhile isDigit = t :=
    @digits_append [] t (fun _ h => nomatch h) ht
  have hfrac : fracPart ('.' :: '0' :: t) = (['0'], t) := by
    rw [fracPart, if_pos (show isDigit '0' = true from rfl), hdigits.1, hdigits.2]
  show scanNumber ('0' :: '.' :: '0' :: t) = _
  rw [scanNumber, signPart, intPart, if_pos rfl, Option.some_bind]
  · dsimp only
    rw [hfrac, expPart_of_numberEnd ht, if_neg (by simp)]
    simp only [floatOfLiteral, show decimal (['0'] ++ ['0']) = 0 from rfl]
    norm_num
  · intro _ h
    cases h

/-- What `json.loads` needs of a node `json.dumps` printed to read it back, with each finite float
`x` as `g x`: an `int` within the digit limit, a float that rereads, and strings and keys with no
high surrogate before a low one. -/
def Rereads (repr : ℚ → List Char) (g : ℚ → ℚ) : JsonValue → Prop
  | .int n => intReprOk n = true
  | .float (.finite x) => RereadsAs repr g x
  | .str s => PairFree s
  | .dict es => ∀ e ∈ es, PairFree e.1
  | _ => True

end SpecTrace.Store
