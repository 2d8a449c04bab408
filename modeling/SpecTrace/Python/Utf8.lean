import SpecTrace.Python.Text

/-! UTF-8 as `str.encode('utf-8')` writes it and `bytes.decode('utf-8')` reads it back with
its default strict errors. The decoder reads byte after byte: a lead byte fixes the length
of a character, each continuation byte adds six bits, and the character read must need all
of its bytes, lie outside the surrogates and not pass U+10FFFF, which accepts exactly the
sequences of RFC 3629; anything else raises `UnicodeDecodeError` (here `none`). Proved:
decoding undoes encoding. -/

namespace SpecTrace.Python

/-- A continuation byte, `%x80-BF`. -/
def isCont (b : UInt8) : Bool := 0x80 ≤ b.toNat && b.toNat < 0xC0

/-- Whether the code point `n`, read from `len` bytes, is a character written in its
shortest form. -/
def scalarOk (len n : Nat) : Bool :=
  match len with
  | 2 => 0x80 ≤ n
  | 3 => 0x800 ≤ n && !(0xD800 ≤ n && n ≤ 0xDFFF)
  | _ => 0x10000 ≤ n && n ≤ 0x10FFFF

/-- The decoder from inside a character of `len` bytes that still needs `need` continuation
bytes, with the bits `acc` read so far; between characters `need` is `0`. -/
def utf8DecodeFrom : Nat → Nat → Nat → List UInt8 → Option (List Char)
  | 0, _, _, [] => some []
  | _ + 1, _, _, [] => none
  | 0, _, _, b :: rest =>
    if b.toNat < 0x80 then (utf8DecodeFrom 0 0 0 rest).map (Char.ofNat b.toNat :: ·)
    else if b.toNat < 0xC2 then none
    else if b.toNat < 0xE0 then utf8DecodeFrom 1 (b.toNat - 0xC0) 2 rest
    else if b.toNat < 0xF0 then utf8DecodeFrom 2 (b.toNat - 0xE0) 3 rest
    else if b.toNat < 0xF5 then utf8DecodeFrom 3 (b.toNat - 0xF0) 4 rest
    else none
  | need + 1, acc, len, b :: rest =>
    if isCont b then
      if need = 0 then
        if scalarOk len (acc * 64 + (b.toNat - 0x80)) then
          (utf8DecodeFrom 0 0 0 rest).map (Char.ofNat (acc * 64 + (b.toNat - 0x80)) :: ·)
        else none
      else utf8DecodeFrom need (acc * 64 + (b.toNat - 0x80)) len rest
    else none

/-- `bytes.decode('utf-8')`; `none` where it raises `UnicodeDecodeError`. -/
def utf8Decode (bytes : List UInt8) : Option (List Char) := utf8DecodeFrom 0 0 0 bytes

/-- The bytes of one character. -/
def encodeChar (c : Char) : List UInt8 :=
  let n := c.toNat
  if n < 0x80 then [UInt8.ofNat n]
  else if n < 0x800 then [UInt8.ofNat (0xC0 + n / 64), UInt8.ofNat (0x80 + n % 64)]
  else if n < 0x10000 then
    [UInt8.ofNat (0xE0 + n / 4096), UInt8.ofNat (0x80 + n / 64 % 64), UInt8.ofNat (0x80 + n % 64)]
  else
    [UInt8.ofNat (0xF0 + n / 262144), UInt8.ofNat (0x80 + n / 4096 % 64),
      UInt8.ofNat (0x80 + n / 64 % 64), UInt8.ofNat (0x80 + n % 64)]

/-- `s.encode('utf-8')`. -/
def utf8Encode (s : List Char) : List UInt8 := s.flatMap encodeChar

example : utf8Encode "é当".toList = [0xC3, 0xA9, 0xE5, 0xBD, 0x93] := by decide
example : utf8Decode [0xED, 0xA0, 0x80] = none ∧ utf8Decode [0xC0, 0x80] = none ∧
    utf8Decode [0xF4, 0x90, 0x80, 0x80] = none := by
  decide

/-! ### Reading back what was written -/

theorem toNat_ofNat_byte {n : Nat} (h : n < 256) : (UInt8.ofNat n).toNat = n :=
  UInt8.toNat_ofNat_of_lt h

theorem isCont_byte {x : Nat} (h : x < 64) : isCont (UInt8.ofNat (0x80 + x)) = true := by
  simp [isCont, toNat_ofNat_byte (show 0x80 + x < 256 by omega)]
  omega

theorem utf8DecodeFrom_cont {need acc len x : Nat} (h : x < 64) (rest : List UInt8) :
    utf8DecodeFrom (need + 2) acc len (UInt8.ofNat (0x80 + x) :: rest) =
      utf8DecodeFrom (need + 1) (acc * 64 + x) len rest := by
  rw [utf8DecodeFrom, if_pos (isCont_byte h), if_neg (by omega),
    toNat_ofNat_byte (show 0x80 + x < 256 by omega), Nat.add_sub_cancel_left]

theorem utf8DecodeFrom_last {acc len x n : Nat} (h : x < 64) (hn : acc * 64 + x = n)
    (hs : scalarOk len n = true) (rest : List UInt8) :
    utf8DecodeFrom 1 acc len (UInt8.ofNat (0x80 + x) :: rest) =
      (utf8DecodeFrom 0 0 0 rest).map (Char.ofNat n :: ·) := by
  rw [utf8DecodeFrom, if_pos (isCont_byte h), if_pos rfl,
    toNat_ofNat_byte (show 0x80 + x < 256 by omega), Nat.add_sub_cancel_left, hn, if_pos hs]

theorem utf8DecodeFrom_lead {base y len : Nat} (hlead : 0xC2 ≤ base + y) (hbyte : base + y < 0xF5)
    (hbase : base = 0xC0 ∧ y < 32 ∧ len = 2 ∨ base = 0xE0 ∧ y < 16 ∧ len = 3 ∨
      base = 0xF0 ∧ len = 4) (rest : List UInt8) :
    utf8DecodeFrom 0 0 0 (UInt8.ofNat (base + y) :: rest) = utf8DecodeFrom (len - 1) y len rest := by
  rw [utf8DecodeFrom, toNat_ofNat_byte (by omega), if_neg (by omega), if_neg (by omega)]
  rcases hbase with ⟨rfl, hy, rfl⟩ | ⟨rfl, hy, rfl⟩ | ⟨rfl, rfl⟩
  · rw [if_pos (by omega), Nat.add_sub_cancel_left]
  · rw [if_neg (by omega), if_pos (by omega), Nat.add_sub_cancel_left]
  · rw [if_neg (by omega), if_neg (by omega), if_pos hbyte, Nat.add_sub_cancel_left]

theorem utf8Decode_encodeChar_append (c : Char) (rest : List UInt8) :
    utf8Decode (encodeChar c ++ rest) = (utf8Decode rest).map (c :: ·) := by
  have hv : c.toNat < 0xD800 ∨ (0xDFFF < c.toNat ∧ c.toNat < 0x110000) := c.valid
  have hc : Char.ofNat c.toNat = c := Char.ofNat_toNat c
  unfold encodeChar utf8Decode
  generalize c.toNat = n at hv hc
  subst hc
  by_cases h₁ : n < 0x80
  · rw [if_pos h₁, List.singleton_append, utf8DecodeFrom, toNat_ofNat_byte (by omega), if_pos h₁]
  by_cases h₂ : n < 0x800
  · rw [if_neg h₁, if_pos h₂, List.cons_append, List.singleton_append,
      utf8DecodeFrom_lead (by omega) (by omega) (.inl ⟨rfl, by omega, rfl⟩),
      utf8DecodeFrom_last (by omega) (show _ = n by omega) (by simp [scalarOk]; omega)]
  by_cases h₃ : n < 0x10000
  · rw [if_neg h₁, if_neg h₂, if_pos h₃, List.cons_append, List.cons_append, List.singleton_append,
      utf8DecodeFrom_lead (by omega) (by omega) (.inr (.inl ⟨rfl, by omega, rfl⟩)),
      utf8DecodeFrom_cont (by omega),
      utf8DecodeFrom_last (by omega) (show _ = n by omega) (by simp [scalarOk]; omega)]
  · rw [if_neg h₁, if_neg h₂, if_neg h₃, List.cons_append, List.cons_append, List.cons_append,
      List.singleton_append, utf8DecodeFrom_lead (by omega) (by omega) (.inr (.inr ⟨rfl, rfl⟩)),
      utf8DecodeFrom_cont (by omega), utf8DecodeFrom_cont (by omega),
      utf8DecodeFrom_last (by omega) (show _ = n by omega) (by simp [scalarOk]; omega)]

/-- Decoding undoes encoding. -/
theorem utf8Decode_utf8Encode (s : List Char) : utf8Decode (utf8Encode s) = some s := by
  induction s with
  | nil => rfl
  | cons c s ih => rw [utf8Encode, List.flatMap_cons, ← utf8Encode, utf8Decode_encodeChar_append, ih]; rfl

end SpecTrace.Python
