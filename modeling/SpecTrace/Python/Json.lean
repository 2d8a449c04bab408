import Mathlib.Algebra.Order.Field.Rat
import SpecTrace.Python.Str

/-! Python values as `json.loads` returns them, and what `spec_diff.py` does with them:
truthiness, `dict.get`, `dict.keys`, `float()`, `int()` and iteration. A `str` is a list of
code points (`PyChar`), lone surrogates included. A `dict` is the list of its entries in
insertion order. A `float` is finite, an infinity or NaN (`json.loads` reads `Infinity`, `NaN`
and overflowing literals so); a finite one is represented by its value, without the rounding
to 53 bits. An operation that Python refuses raises the exception Python raises. What
`float()` and `int()` make of a string is a parameter: no proof depends on it. `mapFloats g`
is a value with each finite float `x` read back as `g x`, as happens when `float.__repr__`
does not print `x` exactly; `nesting` counts the levels of arrays and objects, which the
recursion limit bounds. -/

namespace SpecTrace.Python

/-- A Python `float`. -/
inductive PyFloat where
  | finite (x : ℚ)
  | inf (negative : Bool)
  | nan
  deriving DecidableEq

/-- A value of `json.loads`. -/
inductive JsonValue where
  | null
  | bool (b : Bool)
  | int (n : Int)
  | float (x : PyFloat)
  | str (s : List PyChar)
  | list (xs : List JsonValue)
  | dict (entries : List (List PyChar × JsonValue))

namespace JsonValue

/-- `bool(v)`. -/
def truthy : JsonValue → Bool
  | null => false
  | bool b => b
  | int n => n != 0
  | float (.finite x) => x != 0
  | float _ => true
  | str s => !s.isEmpty
  | list xs => !xs.isEmpty
  | dict entries => !entries.isEmpty

/-- `v is None`. -/
def isNone : JsonValue → Bool
  | null => true
  | _ => false

/-- `v.get(key, default)`: only a `dict` has `get`. -/
def get (v : JsonValue) (key : List PyChar) (default : JsonValue) : Except PyError JsonValue :=
  match v with
  | dict entries => .ok ((entries.lookup key).getD default)
  | _ => .error .attributeError

/-- `v.keys()`. -/
def keys : JsonValue → Except PyError (List (List PyChar))
  | dict entries => .ok (entries.map Prod.fst)
  | _ => .error .attributeError

/-- The items of `for x in v`: a list's elements, a string's characters, a dict's keys. -/
def iter : JsonValue → Except PyError (List JsonValue)
  | list xs => .ok xs
  | str s => .ok (s.map fun c => str [c])
  | dict entries => .ok (entries.map fun e => str e.1)
  | _ => .error .typeError

theorem get_eq_ok_iff {v : JsonValue} {key : List PyChar} {default w : JsonValue} :
    v.get key default = .ok w ↔ ∃ es, v = dict es ∧ (es.lookup key).getD default = w := by
  cases v with
  | dict es => exact ⟨fun h => ⟨es, rfl, Except.ok.inj h⟩, fun ⟨_, h, hw⟩ => by cases h; rw [← hw]; rfl⟩
  | _ => exact ⟨nofun, fun ⟨_, h, _⟩ => nomatch h⟩

theorem exists_get_eq_ok {v : JsonValue} {key : List PyChar} {default : JsonValue} :
    (∃ w, v.get key default = .ok w) ↔ ∃ es, v = dict es := by
  cases v with
  | dict es => exact iff_of_true ⟨_, rfl⟩ ⟨es, rfl⟩
  | _ => exact iff_of_false (fun ⟨_, h⟩ => nomatch h) fun ⟨_, h⟩ => nomatch h

theorem exists_keys_eq_ok {v : JsonValue} : (∃ ks, v.keys = .ok ks) ↔ ∃ es, v = dict es := by
  cases v with
  | dict es => exact iff_of_true ⟨_, rfl⟩ ⟨es, rfl⟩
  | _ => exact iff_of_false (fun ⟨_, h⟩ => nomatch h) fun ⟨_, h⟩ => nomatch h

/-! ### Properties of every value inside a value -/

mutual

/-- `p` holds of the value and of every value inside it. -/
def Every (p : JsonValue → Prop) : JsonValue → Prop
  | null => p null
  | bool b => p (bool b)
  | int n => p (int n)
  | float x => p (float x)
  | str s => p (str s)
  | list xs => p (list xs) ∧ EveryItem p xs
  | dict es => p (dict es) ∧ EveryEntry p es

/-- `Every p` of each item. -/
def EveryItem (p : JsonValue → Prop) : List JsonValue → Prop
  | [] => True
  | x :: xs => Every p x ∧ EveryItem p xs

/-- `Every p` of each member's value. -/
def EveryEntry (p : JsonValue → Prop) : List (List PyChar × JsonValue) → Prop
  | [] => True
  | (_, v) :: es => Every p v ∧ EveryEntry p es

end

theorem Every.self {p : JsonValue → Prop} {v : JsonValue} (h : v.Every p) : p v := by
  cases v <;> first | exact h | exact h.1

theorem everyItem_iff {p : JsonValue → Prop} {xs : List JsonValue} :
    EveryItem p xs ↔ ∀ x ∈ xs, x.Every p := by
  induction xs with
  | nil => exact iff_of_true trivial fun _ h => nomatch h
  | cons x xs ih => rw [EveryItem, ih, List.forall_mem_cons]

theorem everyEntry_iff {p : JsonValue → Prop} {es : List (List PyChar × JsonValue)} :
    EveryEntry p es ↔ ∀ e ∈ es, e.2.Every p := by
  induction es with
  | nil => exact iff_of_true trivial fun _ h => nomatch h
  | cons e es ih => rw [EveryEntry, ih, List.forall_mem_cons]

theorem every_list_iff {p : JsonValue → Prop} {xs : List JsonValue} :
    (list xs).Every p ↔ p (list xs) ∧ ∀ x ∈ xs, x.Every p := by
  rw [Every, everyItem_iff]

theorem every_dict_iff {p : JsonValue → Prop} {es : List (List PyChar × JsonValue)} :
    (dict es).Every p ↔ p (dict es) ∧ ∀ e ∈ es, e.2.Every p := by
  rw [Every, everyEntry_iff]

/-! ### Floats as they are read back -/

mutual

/-- The value with each finite float `x` replaced by `g x`. -/
def mapFloats (g : ℚ → ℚ) : JsonValue → JsonValue
  | null => null
  | bool b => bool b
  | int n => int n
  | float (.finite x) => float (.finite (g x))
  | float (.inf n) => float (.inf n)
  | float .nan => float .nan
  | str s => str s
  | list xs => list (mapFloatsItems g xs)
  | dict es => dict (mapFloatsEntries g es)

/-- `mapFloats` of each item. -/
def mapFloatsItems (g : ℚ → ℚ) : List JsonValue → List JsonValue
  | [] => []
  | x :: xs => mapFloats g x :: mapFloatsItems g xs

/-- `mapFloats` of each member's value. -/
def mapFloatsEntries (g : ℚ → ℚ) : List (List PyChar × JsonValue) → List (List PyChar × JsonValue)
  | [] => []
  | (k, v) :: es => (k, mapFloats g v) :: mapFloatsEntries g es

end

theorem mapFloatsItems_eq_map (g : ℚ → ℚ) (xs : List JsonValue) :
    mapFloatsItems g xs = xs.map (mapFloats g) := by
  induction xs with
  | nil => rfl
  | cons x xs ih => rw [mapFloatsItems, ih, List.map_cons]

theorem mapFloatsEntries_eq_map (g : ℚ → ℚ) (es : List (List PyChar × JsonValue)) :
    mapFloatsEntries g es = es.map fun e => (e.1, e.2.mapFloats g) := by
  induction es with
  | nil => rfl
  | cons e es ih =>
    obtain ⟨k, v⟩ := e
    rw [mapFloatsEntries, ih, List.map_cons]

@[simp] theorem mapFloats_null (g : ℚ → ℚ) : null.mapFloats g = null := rfl
@[simp] theorem mapFloats_bool (g : ℚ → ℚ) (b : Bool) : (bool b).mapFloats g = bool b := rfl
@[simp] theorem mapFloats_int (g : ℚ → ℚ) (n : Int) : (int n).mapFloats g = int n := rfl
@[simp] theorem mapFloats_str (g : ℚ → ℚ) (s : List PyChar) : (str s).mapFloats g = str s := rfl

@[simp] theorem mapFloats_finite (g : ℚ → ℚ) (x : ℚ) :
    (float (.finite x)).mapFloats g = float (.finite (g x)) := rfl

@[simp] theorem mapFloats_list (g : ℚ → ℚ) (xs : List JsonValue) :
    (list xs).mapFloats g = list (xs.map (mapFloats g)) := by
  rw [mapFloats, mapFloatsItems_eq_map]

@[simp] theorem mapFloats_dict (g : ℚ → ℚ) (es : List (List PyChar × JsonValue)) :
    (dict es).mapFloats g = dict (es.map fun e => (e.1, e.2.mapFloats g)) := by
  rw [mapFloats, mapFloatsEntries_eq_map]

/-! ### Nesting -/

mutual

/-- The levels of arrays and objects in the value: none in a scalar, one more than the deepest
item in an array or an object, even an empty one. -/
def nesting : JsonValue → Nat
  | list xs => nestingItems xs + 1
  | dict es => nestingEntries es + 1
  | _ => 0

/-- The deepest `nesting` of the items. -/
def nestingItems : List JsonValue → Nat
  | [] => 0
  | x :: xs => max (nesting x) (nestingItems xs)

/-- The deepest `nesting` of the members' values. -/
def nestingEntries : List (List PyChar × JsonValue) → Nat
  | [] => 0
  | (_, v) :: es => max (nesting v) (nestingEntries es)

end

theorem nestingItems_le_iff {xs : List JsonValue} {d : Nat} :
    nestingItems xs ≤ d ↔ ∀ x ∈ xs, x.nesting ≤ d := by
  induction xs with
  | nil => exact iff_of_true (Nat.zero_le d) fun _ h => nomatch h
  | cons x xs ih => rw [nestingItems, max_le_iff, ih, List.forall_mem_cons]

theorem nestingEntries_le_iff {es : List (List PyChar × JsonValue)} {d : Nat} :
    nestingEntries es ≤ d ↔ ∀ e ∈ es, e.2.nesting ≤ d := by
  induction es with
  | nil => exact iff_of_true (Nat.zero_le d) fun _ h => nomatch h
  | cons e es ih => obtain ⟨k, v⟩ := e; rw [nestingEntries, max_le_iff, ih, List.forall_mem_cons]

theorem nesting_list_le_iff {xs : List JsonValue} {d : Nat} :
    (list xs).nesting ≤ d + 1 ↔ ∀ x ∈ xs, x.nesting ≤ d := by
  rw [nesting, Nat.add_le_add_iff_right, nestingItems_le_iff]

theorem nesting_dict_le_iff {es : List (List PyChar × JsonValue)} {d : Nat} :
    (dict es).nesting ≤ d + 1 ↔ ∀ e ∈ es, e.2.nesting ≤ d := by
  rw [nesting, Nat.add_le_add_iff_right, nestingEntries_le_iff]

/-- A `dict`'s keys are distinct, as `json.loads` and `json.dumps` need them. -/
def DistinctKeys : JsonValue → Prop
  | dict es => (es.map Prod.fst).Nodup
  | _ => True

end JsonValue

/-! ### Raising -/

theorem bind_eq_ok_iff {ε α β : Type} {x : Except ε α} {f : α → Except ε β} {b : β} :
    x.bind f = .ok b ↔ ∃ a, x = .ok a ∧ f a = .ok b := by
  cases x with
  | error e => exact iff_of_false nofun fun ⟨_, h, _⟩ => nomatch h
  | ok a => exact ⟨fun h => ⟨a, rfl, h⟩, fun ⟨_, h, hb⟩ => by cases h; exact hb⟩

theorem map_eq_ok_iff {ε α β : Type} {x : Except ε α} {f : α → β} {b : β} :
    x.map f = .ok b ↔ ∃ a, x = .ok a ∧ f a = b := by
  cases x with
  | error e => exact iff_of_false nofun fun ⟨_, h, _⟩ => nomatch h
  | ok a => exact ⟨fun h => ⟨a, rfl, Except.ok.inj h⟩, fun ⟨_, h, hb⟩ => by cases h; rw [← hb]; rfl⟩

/-- `v != h` for a value `v` and a string `h`: only an equal string is equal. -/
def differsFromStr (v : JsonValue) (h : List Char) : Bool :=
  match v with
  | .str s => s != ofChars h
  | _ => true

/-- `float(v)`; `floatOfStr s` is what `float(s)` returns of a string, `none` for a
`ValueError`. An `int` whose rounding reaches `2 ^ 1024` overflows. -/
def pyFloat (floatOfStr : List PyChar → Option PyFloat) : JsonValue → Except PyError PyFloat
  | .bool b => .ok (.finite (if b then 1 else 0))
  | .int n => if 2 ^ 1024 - 2 ^ 970 ≤ n.natAbs then .error .overflowError else .ok (.finite n)
  | .float x => .ok x
  | .str s =>
    match floatOfStr s with
    | some x => .ok x
    | none => .error .valueError
  | _ => .error .typeError

/-- `int(v)`; `intOfStr s` is what `int(s)` returns of a string, `none` for a `ValueError`.
A finite `float` is truncated towards zero. -/
def pyInt (intOfStr : List PyChar → Option Int) : JsonValue → Except PyError Int
  | .bool b => .ok (if b then 1 else 0)
  | .int n => .ok n
  | .float (.finite x) => .ok (x.num.tdiv x.den)
  | .float (.inf _) => .error .overflowError
  | .float .nan => .error .valueError
  | .str s =>
    match intOfStr s with
    | some n => .ok n
    | none => .error .valueError
  | _ => .error .typeError

end SpecTrace.Python
