import SpecTrace.Python.Json

/-! `json.dumps(obj, indent=2)`, with which `spec_diff.py` writes `spec/spec_diff_report.json`
and `spec_test_map.py` writes `spec/spec_test_mapping.json`. With an indent `JSONEncoder` does
not use the C encoder: the text is that of `_make_iterencode`, one item or member a line, two
spaces a level, `','` after each but the last and `': '` after a key. Strings go through
`c_encode_basestring_ascii` (`ensure_ascii` is on): every character outside `' '`–`'~'`, and
`"` and `\`, is escaped, those beyond the Basic Multilingual Plane as a surrogate pair and a
lone surrogate as itself.

The text is built before anything is written, and building it can raise: `int.__repr__`
refuses an `int` of more than 4300 digits (`ValueError`), and the generators of
`_make_iterencode` nest one Python frame a level. A non-empty container or a float (its
`floatstr` frame) at a level the recursion limit does not leave raises `RecursionError`;
`depth` is the number of levels the limit leaves at the call. `float.__repr__` is a parameter
`repr`, for the finite floats; NaN and the infinities are printed by `floatstr` itself. -/

namespace SpecTrace.Store

open Python

/-! ### Strings -/

/-- `Py_hexdigits[d]`, lower case. -/
def hexDigit (d : Nat) : Char := if d < 10 then Char.ofNat (48 + d) else Char.ofNat (87 + d)

/-- The four digits of the UTF-16 unit `v` in a `\uXXXX` escape: `(v >> 12) & 0xf` and so on. -/
def hex4 (v : Nat) : List Char :=
  [hexDigit (v / 4096 % 16), hexDigit (v / 256 % 16), hexDigit (v / 16 % 16), hexDigit (v % 16)]

/-- `S_CHAR(c)`: a character written as itself. -/
def sChar (c : Char) : Bool := ' ' ≤ c && c ≤ '~' && c != '\\' && c != '"'

/-- `ascii_escape_unichar(c)`; beyond the Basic Multilingual Plane, the escapes of the two surrogate
units of `c`. -/
def escapeUnichar (c : Char) : List Char :=
  if c = '\\' then ['\\', '\\']
  else if c = '"' then ['\\', '"']
  else if c = '\x08' then ['\\', 'b']
  else if c = '\x0c' then ['\\', 'f']
  else if c = '\n' then ['\\', 'n']
  else if c = '\r' then ['\\', 'r']
  else if c = '\t' then ['\\', 't']
  else if c.toNat < 0x10000 then '\\' :: 'u' :: hex4 c.toNat
  else '\\' :: 'u' :: hex4 (0xD800 - 0x40 + c.toNat / 1024) ++
    '\\' :: 'u' :: hex4 (0xDC00 + c.toNat % 1024)

def encodeChar (c : Char) : List Char := if sChar c then [c] else escapeUnichar c

/-- `ascii_escape_unichar` of a code point: a lone surrogate is escaped as its own unit. -/
def encodePyChar : PyChar → List Char
  | .char c => encodeChar c
  | .surrogate u => '\\' :: 'u' :: hex4 (0xD800 + u.val)

/-- `encode_basestring_ascii(s)`: the string between quotation marks. -/
def encodeBasestringAscii (s : List PyChar) : List Char := '"' :: s.flatMap encodePyChar ++ ['"']

example : encodeBasestringAscii (pyStr "a\"é😀" ++ [.surrogate 0x4FF]) =
    "\"a\\\"\\u00e9\\ud83d\\ude00\\udcff\"".toList := by
  decide

/-! ### Values -/

/-- `floatstr(o)`: NaN and the infinities by name, a finite float by `float.__repr__`. -/
def floatStr (repr : ℚ → List Char) : PyFloat → List Char
  | .nan => "NaN".toList
  | .inf false => "Infinity".toList
  | .inf true => "-Infinity".toList
  | .finite x => repr x

/-- `'\n' + _indent * level` for `indent=2`. -/
def newlineIndent (level : Nat) : List Char := '\n' :: List.replicate (2 * level) ' '

mutual

/-- `_iterencode(o, level)`: a container's first item follows `newline_indent`, each later one
the separator `',' + newline_indent`, and the closing bracket a newline at the outer level. -/
def dumpsAt (repr : ℚ → List Char) : Nat → JsonValue → List Char
  | _, .null => "null".toList
  | _, .bool true => "true".toList
  | _, .bool false => "false".toList
  | _, .int n => (toString n).toList
  | _, .float x => floatStr repr x
  | _, .str s => encodeBasestringAscii s
  | _, .list [] => "[]".toList
  | level, .list (x :: xs) =>
    '[' :: newlineIndent (level + 1) ++ dumpsAt repr (level + 1) x ++ dumpsItems repr (level + 1) xs ++
      newlineIndent level ++ [']']
  | _, .dict [] => "\x7b\x7d".toList
  | level, .dict ((k, v) :: es) =>
    '\x7b' :: newlineIndent (level + 1) ++ encodeBasestringAscii k ++ ':' :: ' ' :: dumpsAt repr (level + 1) v ++
      dumpsEntries repr (level + 1) es ++ newlineIndent level ++ ['\x7d']

def dumpsItems (repr : ℚ → List Char) (level : Nat) : List JsonValue → List Char
  | [] => []
  | x :: xs => ',' :: newlineIndent level ++ dumpsAt repr level x ++ dumpsItems repr level xs

def dumpsEntries (repr : ℚ → List Char) (level : Nat) : List (List PyChar × JsonValue) → List Char
  | [] => []
  | (k, v) :: es =>
    ',' :: newlineIndent level ++ encodeBasestringAscii k ++ ':' :: ' ' :: dumpsAt repr level v ++
      dumpsEntries repr level es

end

/-! ### What raises -/

/-- `int.__repr__` prints an `int` of at most 4300 digits (`sys.get_int_max_str_digits()`). -/
def intReprOk (n : Int) : Bool := decide ((Nat.toDigits 10 n.natAbs).length ≤ 4300)

mutual

/-- The first exception `_iterencode` raises, in the order of the text, on a value with `depth`
levels left. -/
def dumpsError : Nat → JsonValue → Option PyError
  | _, .int n => if intReprOk n then none else some .valueError
  | 0, .float _ => some .recursionError
  | 0, .list (_ :: _) => some .recursionError
  | 0, .dict (_ :: _) => some .recursionError
  | depth + 1, .list xs => itemsError depth xs
  | depth + 1, .dict es => entriesError depth es
  | _, _ => none

def itemsError (depth : Nat) : List JsonValue → Option PyError
  | [] => none
  | x :: xs => (dumpsError depth x).or (itemsError depth xs)

def entriesError (depth : Nat) : List (List PyChar × JsonValue) → Option PyError
  | [] => none
  | (_, v) :: es => (dumpsError depth v).or (entriesError depth es)

end

@[simp] theorem dumpsError_null (depth : Nat) : dumpsError depth .null = none := by cases depth <;> rfl
@[simp] theorem dumpsError_bool (depth : Nat) (b : Bool) : dumpsError depth (.bool b) = none := by
  cases depth <;> rfl
@[simp] theorem dumpsError_str (depth : Nat) (s : List PyChar) : dumpsError depth (.str s) = none := by
  cases depth <;> rfl
@[simp] theorem dumpsError_int (depth : Nat) (n : Int) :
    dumpsError depth (.int n) = if intReprOk n then none else some .valueError := by
  cases depth <;> rfl
@[simp] theorem dumpsError_zero_float (x : PyFloat) : dumpsError 0 (.float x) = some .recursionError := rfl
@[simp] theorem dumpsError_zero_list_cons (x : JsonValue) (xs : List JsonValue) :
    dumpsError 0 (.list (x :: xs)) = some .recursionError := rfl
@[simp] theorem dumpsError_zero_dict_cons (e : List PyChar × JsonValue) (es : List (List PyChar × JsonValue)) :
    dumpsError 0 (.dict (e :: es)) = some .recursionError := rfl
@[simp] theorem dumpsError_succ_float (depth : Nat) (x : PyFloat) : dumpsError (depth + 1) (.float x) = none :=
  rfl
@[simp] theorem dumpsError_succ_list (depth : Nat) (xs : List JsonValue) :
    dumpsError (depth + 1) (.list xs) = itemsError depth xs := by cases xs <;> rfl
@[simp] theorem dumpsError_succ_dict (depth : Nat) (es : List (List PyChar × JsonValue)) :
    dumpsError (depth + 1) (.dict es) = entriesError depth es := by cases es <;> rfl

theorem itemsError_eq_none_iff {depth : Nat} {xs : List JsonValue} :
    itemsError depth xs = none ↔ ∀ x ∈ xs, dumpsError depth x = none := by
  induction xs with
  | nil => exact iff_of_true rfl fun _ h => nomatch h
  | cons x xs ih => rw [itemsError, Option.or_eq_none, ih, List.forall_mem_cons]

theorem entriesError_eq_none_iff {depth : Nat} {es : List (List PyChar × JsonValue)} :
    entriesError depth es = none ↔ ∀ e ∈ es, dumpsError depth e.2 = none := by
  induction es with
  | nil => exact iff_of_true rfl fun _ h => nomatch h
  | cons e es ih => obtain ⟨k, v⟩ := e; rw [entriesError, Option.or_eq_none, ih, List.forall_mem_cons]

/-- `json.dumps(obj, indent=2)` at a call that leaves `depth` levels: the text, or the exception
that stops it. -/
def dumps (repr : ℚ → List Char) (depth : Nat) (v : JsonValue) : Except PyError (List Char) :=
  match dumpsError depth v with
  | some e => .error e
  | none => .ok (dumpsAt repr 0 v)

example : dumps (fun _ => "0.5".toList) 3
    (.dict [(pyStr "a", .list [.int (-12), .float (.finite (1 / 2))]), (pyStr "b", .dict [])]) =
      .ok "\x7b\n  \"a\": [\n    -12,\n    0.5\n  ],\n  \"b\": \x7b\x7d\n\x7d".toList := by
  rfl

example : dumps (fun _ => "0.5".toList) 1 (.list [.list [], .float (.finite (1 / 2)), .list [.int 1]]) =
    .error .recursionError := by
  rfl

end SpecTrace.Store
