import SpecTrace.Python.Utf8

/-! Python `str` values as code points. A `str` the scripts decode from a file holds Unicode
scalar values only, but one can also hold lone surrogates: `json.loads` keeps an unpaired
`\uXXXX` escape of a surrogate as it is, and `Path.glob` names a file whose name is not UTF-8
with `surrogateescape`, which turns each byte that does not decode into U+DC80 to U+DCFF.
`str.encode('utf-8')` refuses a lone surrogate, so `path.write_text(text, encoding='utf-8')`,
which opens the file for writing and so empties it before it encodes, then raises
`UnicodeEncodeError` and leaves the file empty. -/

namespace SpecTrace.Python

/-- The exceptions the modelled code can raise. -/
inductive PyError where
  | attributeError
  | typeError
  | valueError
  | overflowError
  | recursionError
  | unicodeEncodeError
  | unicodeDecodeError
  deriving DecidableEq, Repr

/-- A code point of a `str`: a Unicode scalar value, or the lone surrogate `U+D800 + u`. -/
inductive PyChar where
  | char (c : Char)
  | surrogate (u : Fin 0x800)
  deriving DecidableEq

namespace PyChar

/-- `ord(c)`. -/
def toNat : PyChar → Nat
  | char c => c.toNat
  | surrogate u => 0xD800 + u.val

/-- `Py_UNICODE_IS_HIGH_SURROGATE`: U+D800 to U+DBFF. -/
def isHigh : PyChar → Bool
  | char _ => false
  | surrogate u => u.val < 0x400

/-- `Py_UNICODE_IS_LOW_SURROGATE`: U+DC00 to U+DFFF. -/
def isLow : PyChar → Bool
  | char _ => false
  | surrogate u => 0x400 ≤ u.val

/-- What `surrogateescape` makes of a byte that does not decode: U+DC80 to U+DCFF. -/
def IsEscapedByte : PyChar → Prop
  | char _ => True
  | surrogate u => 0x480 ≤ u.val ∧ u.val < 0x500

instance : DecidablePred IsEscapedByte
  | char _ => instDecidableTrue
  | surrogate _ => inferInstanceAs (Decidable (_ ∧ _))

theorem toNat_char_lt {c : Char} : c.toNat < 0xD800 ∨ 0xDFFF < c.toNat :=
  (show c.toNat < 0xD800 ∨ (0xDFFF < c.toNat ∧ c.toNat < 0x110000) from c.valid).imp_right (·.1)

theorem toNat_injective : Function.Injective toNat := by
  intro a b h
  cases a with
  | char c =>
    cases b with
    | char d =>
      have h : c.toNat = d.toNat := h
      rw [← Char.ofNat_toNat c, ← Char.ofNat_toNat d, h]
    | surrogate v =>
      have := v.isLt
      rcases @toNat_char_lt c with hc | hc <;> simp only [toNat] at h <;> omega
  | surrogate u =>
    cases b with
    | char d =>
      have := u.isLt
      rcases @toNat_char_lt d with hd | hd <;> simp only [toNat] at h <;> omega
    | surrogate v => exact congrArg surrogate (Fin.ext (by simpa [toNat] using h))

/-- The code point of the UTF-16 unit `n` of a `\uXXXX` escape. -/
def ofUnit (n : Nat) : PyChar :=
  if h : 0xD800 ≤ n ∧ n < 0xE000 then surrogate ⟨n - 0xD800, by omega⟩ else char (Char.ofNat n)

theorem ofUnit_char {c : Char} (h : c.toNat < 0x10000) : ofUnit c.toNat = char c := by
  rw [ofUnit, dif_neg (by rcases @toNat_char_lt c with hc | hc <;> omega), Char.ofNat_toNat]

theorem ofUnit_surrogate (u : Fin 0x800) : ofUnit (0xD800 + u.val) = surrogate u := by
  have hu := u.isLt
  rw [ofUnit, dif_pos ⟨Nat.le_add_right _ _, by omega⟩]
  exact congrArg surrogate (Fin.ext (Nat.add_sub_cancel_left ..))

end PyChar

/-- A `str` of scalar values. -/
def ofChars (s : List Char) : List PyChar := s.map .char

/-- A `str` literal. -/
def pyStr (s : String) : List PyChar := ofChars s.toList

/-- The scalar values of a `str`, `none` when it holds a lone surrogate. -/
def toChars : List PyChar → Option (List Char)
  | [] => some []
  | .char c :: s => (toChars s).map (c :: ·)
  | .surrogate _ :: _ => none

@[simp] theorem toChars_nil : toChars [] = some [] := rfl

@[simp] theorem ofChars_nil : ofChars [] = [] := rfl

@[simp] theorem ofChars_cons (c : Char) (s : List Char) : ofChars (c :: s) = .char c :: ofChars s := rfl

@[simp] theorem ofChars_append (s t : List Char) : ofChars (s ++ t) = ofChars s ++ ofChars t :=
  List.map_append _ _ _

theorem ofChars_injective : Function.Injective ofChars :=
  List.map_injective_iff.mpr fun _ _ h => PyChar.char.inj h

@[simp] theorem ofChars_inj {s t : List Char} : ofChars s = ofChars t ↔ s = t :=
  ofChars_injective.eq_iff

@[simp] theorem toChars_ofChars (s : List Char) : toChars (ofChars s) = some s := by
  induction s with
  | nil => rfl
  | cons c s ih => rw [ofChars_cons, toChars, ih]; rfl

@[simp] theorem ofChars_bne (s t : List Char) : (ofChars s != ofChars t) = (s != t) := by
  rw [Bool.eq_iff_iff]
  simp [ofChars_inj]

theorem toChars_eq_some {s : List PyChar} {t : List Char} : toChars s = some t ↔ s = ofChars t := by
  constructor
  · intro h
    induction s generalizing t with
    | nil => cases h; rfl
    | cons c s ih =>
      cases c with
      | char c =>
        obtain ⟨t', ht', rfl⟩ := Option.map_eq_some'.mp h
        rw [ih ht', ofChars_cons]
      | surrogate _ => cases h
  · rintro rfl
    exact toChars_ofChars t

/-! ### Text that encodes -/

theorem toChars_isSome_iff {s : List PyChar} : (toChars s).isSome ↔ ∀ u, PyChar.surrogate u ∉ s := by
  induction s with
  | nil => simp [toChars]
  | cons c s ih =>
    cases c with
    | char c => rw [toChars, Option.isSome_map', ih]; simp
    | surrogate u => exact iff_of_false (by simp [toChars]) fun h => h u (.head _)

theorem toChars_isSome_append {s t : List PyChar} :
    (toChars (s ++ t)).isSome ↔ (toChars s).isSome ∧ (toChars t).isSome := by
  simp only [toChars_isSome_iff, List.mem_append, not_or, forall_and]

@[simp] theorem toChars_isSome_ofChars (s : List Char) : (toChars (ofChars s)).isSome := by
  rw [toChars_ofChars]; rfl

@[simp] theorem toChars_isSome_pyStr (s : String) : (toChars (pyStr s)).isSome :=
  toChars_isSome_ofChars _

theorem toChars_isSome_char_cons (c : Char) (s : List PyChar) :
    (toChars (.char c :: s)).isSome = (toChars s).isSome := by
  rw [toChars, Option.isSome_map']

theorem mem_intersperse {α : Type} {sep x : α} : ∀ {L : List α}, x ∈ L.intersperse sep → x ∈ L ∨ x = sep
  | [], h => nomatch h
  | [_], h => .inl h
  | _ :: _ :: _, h => by
    rw [List.intersperse_cons₂] at h
    rcases List.mem_cons.mp h with rfl | h
    · exact .inl (.head _)
    rcases List.mem_cons.mp h with rfl | h
    · exact .inr rfl
    exact (mem_intersperse h).imp_left (.tail _)

theorem mem_intersperse_of_mem {α : Type} {sep x : α} : ∀ {L : List α}, x ∈ L → x ∈ L.intersperse sep
  | [_], h => h
  | _ :: _ :: _, h => by
    rw [List.intersperse_cons₂]
    rcases List.mem_cons.mp h with rfl | h
    · exact .head _
    · exact .tail _ (.tail _ (mem_intersperse_of_mem h))

theorem toChars_isSome_intercalate {sep : List PyChar} (hsep : (toChars sep).isSome)
    (L : List (List PyChar)) : (toChars (sep.intercalate L)).isSome ↔ ∀ l ∈ L, (toChars l).isSome := by
  simp only [toChars_isSome_iff] at hsep ⊢
  constructor
  · exact fun h l hl u hu => h u (List.mem_flatten.mpr ⟨l, mem_intersperse_of_mem hl, hu⟩)
  · intro h u hu
    obtain ⟨l, hl, hul⟩ := List.mem_flatten.mp hu
    rcases mem_intersperse hl with hl | rfl
    exacts [h l hl u hul, hsep u hul]

theorem exists_map_ofChars {L : List (List PyChar)} (h : ∀ l ∈ L, (toChars l).isSome) :
    ∃ L' : List (List Char), L = L'.map ofChars := by
  induction L with
  | nil => exact ⟨[], rfl⟩
  | cons l L ih =>
    obtain ⟨s, hs⟩ := Option.isSome_iff_exists.mp (h l (.head _))
    obtain ⟨L', rfl⟩ := ih fun l' hl' => h l' (.tail _ hl')
    exact ⟨s :: L', by rw [toChars_eq_some.mp hs, List.map_cons]⟩

/-- `'\n'.join(lines)` of `str` values. -/
def joinPyLines : List (List PyChar) → List PyChar
  | [] => []
  | l :: ls => if ls = [] then l else l ++ .char '\n' :: joinPyLines ls

theorem joinPyLines_ofChars (ls : List (List Char)) :
    joinPyLines (ls.map ofChars) = ofChars (joinLines ls) := by
  induction ls with
  | nil => rfl
  | cons l ls ih => cases ls <;> simp_all [joinPyLines, joinLines]

/-- `path.write_text(text, encoding='utf-8')`: the bytes of the file afterwards, and whether the
write raised. -/
def writeText (text : List PyChar) : List UInt8 × Except PyError Unit :=
  match toChars text with
  | some s => (utf8Encode s, .ok ())
  | none => ([], .error .unicodeEncodeError)

theorem toChars_isSome_joinPyLines (L : List (List PyChar)) :
    (toChars (joinPyLines L)).isSome ↔ ∀ l ∈ L, (toChars l).isSome := by
  induction L with
  | nil => simp [joinPyLines, toChars]
  | cons l L ih =>
    rw [List.forall_mem_cons, ← ih, joinPyLines]
    split_ifs with h
    · subst h; simp [joinPyLines, toChars]
    · rw [toChars_isSome_append, toChars_isSome_char_cons]

theorem writeText_ofChars (s : List Char) : writeText (ofChars s) = (utf8Encode s, .ok ()) := by
  rw [writeText, toChars_ofChars]

/-- The write returns exactly when the text encodes; otherwise it leaves the file empty and raises
`UnicodeEncodeError`. -/
theorem writeText_cases (text : List PyChar) :
    (∃ s, toChars text = some s ∧ writeText text = (utf8Encode s, .ok ())) ∨
      (toChars text = none ∧ writeText text = ([], .error .unicodeEncodeError)) := by
  unfold writeText
  cases h : toChars text with
  | some s => exact .inl ⟨s, rfl, rfl⟩
  | none => exact .inr ⟨rfl, rfl⟩

end SpecTrace.Python
