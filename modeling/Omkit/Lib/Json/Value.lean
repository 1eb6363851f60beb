import Omkit.Lib.Text
import Mathlib.Data.List.Nodup
import Mathlib.Data.List.Sort

/-!
# JSON values and their text

The values that a JSON codec exchanges with the program, and `dumps`, the text it writes for
them.  What the codec takes from the interpreter it runs on (the floats, and the limits on
nesting and on the digits of an integer) is gathered in a class.
-/

namespace Omkit.Lib

/-- The exceptions of the standard library that the code meets. -/
inductive StdExc
  | valueError
  /-- `json.JSONDecodeError`, a `ValueError`. -/
  | jsonDecodeError
  /-- `UnicodeDecodeError`, a `ValueError`. -/
  | unicodeDecodeError
  /-- `UnicodeEncodeError`, a `ValueError`. -/
  | unicodeEncodeError
  | recursionError
  | typeError
  | attributeError
  | keyError
  | overflowError
deriving DecidableEq, Repr

/-- Is the exception an instance of `ValueError`? -/
def StdExc.isValueError : StdExc → Bool
  | valueError | jsonDecodeError | unicodeDecodeError | unicodeEncodeError => true
  | _ => false

/-- The floats that are not numbers of the JSON grammar. -/
inductive NonFinite
  | nan
  | inf
  | negInf
deriving DecidableEq, Repr

/-- A JSON value over a type `F` of finite floats.  An object is the list of its members in
insertion order. -/
inductive Json (F : Type)
  | null
  | bool (b : Bool)
  | int (n : ℤ)
  | float (x : F)
  | nonFinite (k : NonFinite)
  | str (s : PyStr)
  | arr (l : List (Json F))
  | obj (l : List (PyStr × Json F))

section

variable {F : Type}

/-- Is the value neither an array nor an object? -/
def Json.Leaf : Json F → Prop
  | .arr _ | .obj _ => False
  | _ => True

/-- Induction over the values nested in a value. -/
@[elab_as_elim]
theorem Json.induction {P : Json F → Prop} (leaf : ∀ v : Json F, v.Leaf → P v)
    (arr : ∀ l, (∀ v ∈ l, P v) → P (.arr l)) (obj : ∀ l, (∀ m ∈ l, P m.2) → P (.obj l))
    (v : Json F) : P v := by
  match v with
  | .arr l => exact arr l fun v hv => Json.induction leaf arr obj v
  | .obj l => exact obj l fun m hm => Json.induction leaf arr obj m.2
  | .null | .bool _ | .int _ | .float _ | .nonFinite _ | .str _ => exact leaf _ trivial
termination_by sizeOf v
decreasing_by
  · have := List.sizeOf_lt_of_mem hv
    simp_wf
    omega
  · obtain ⟨k, v⟩ := m
    have := List.sizeOf_lt_of_mem hm
    simp_wf
    simp only [Prod.mk.sizeOf_spec] at this
    omega

end

/-! ## Numbers -/

/-- Is the character an ASCII digit? -/
def isDigit : PyChar → Bool
  | .scalar c => c.isDigit
  | .surrogate _ => false

/-- `0`, or a run of digits that does not start with `0`. -/
def NatLit (s : PyStr) : Prop :=
  s = [.scalar '0'] ∨
    ∃ c r, s = .scalar c :: r ∧ c.isDigit = true ∧ c ≠ '0' ∧ ∀ x ∈ r, isDigit x = true

/-- The integer part of a number. -/
def IntLit (s : PyStr) : Prop :=
  NatLit s ∨ ∃ t, s = .scalar '-' :: t ∧ NatLit t

/-- The fractional part of a number: absent, or a point and at least one digit. -/
def FracLit (s : PyStr) : Prop :=
  s = [] ∨ ∃ x r, s = .scalar '.' :: x :: r ∧ isDigit x = true ∧ ∀ y ∈ r, isDigit y = true

/-- The exponent of a number: absent, or `e`, perhaps a sign, and at least one digit. -/
def ExpLit (s : PyStr) : Prop :=
  s = [] ∨ ∃ e sgn x r, s = .scalar e :: (sgn ++ x :: r) ∧ (e = 'e' ∨ e = 'E') ∧
    (sgn = [] ∨ sgn = [.scalar '+'] ∨ sgn = [.scalar '-']) ∧
    isDigit x = true ∧ ∀ y ∈ r, isDigit y = true

/-- A number that is read as a float: it has a fractional part or an exponent. -/
def FloatLit (s : PyStr) : Prop :=
  ∃ ip fp ep, s = ip ++ (fp ++ ep) ∧ IntLit ip ∧ FracLit fp ∧ ExpLit ep ∧ (fp ≠ [] ∨ ep ≠ [])

/-- What the codec takes from the interpreter: the text of a finite float and the float of a
text, the number of digits of an integer that may be converted, and the nesting that the encoder
and the decoder can recurse into. -/
class JsonRuntime (F : Type) where
  /-- `repr(x)`. -/
  floatRepr : F → PyStr
  /-- `float(s)`; `none` if the number overflows to an infinity. -/
  floatOf : PyStr → Option F
  /-- `sys.get_int_max_str_digits()`; `none` if there is no limit. -/
  digitLimit : Option ℕ
  /-- The nesting of arrays and objects that the codec accepts. -/
  maxDepth : ℕ
  floatRepr_lit : ∀ x, FloatLit (floatRepr x)
  floatOf_repr : ∀ x, floatOf (floatRepr x) = some x
  /-- The least limit that the interpreter lets one set. -/
  digitLimit_ge : ∀ n ∈ digitLimit, 640 ≤ n
  /-- An object of objects is never too deep. -/
  maxDepth_ge : 2 ≤ maxDepth

/-- An interpreter with its usual limits, without floats. -/
instance : JsonRuntime Empty where
  floatRepr := Empty.elim
  floatOf _ := none
  digitLimit := some 4300
  maxDepth := 900
  floatRepr_lit := nofun
  floatOf_repr := nofun
  digitLimit_ge := by simp
  maxDepth_ge := by simp

/-- The decimal digits of a natural number. -/
def natText (n : ℕ) : PyStr := (Nat.toDigits 10 n).map PyChar.scalar

/-- The decimal text of an integer. -/
def intText : ℤ → PyStr
  | .ofNat n => natText n
  | .negSucc n => .scalar '-' :: natText (n + 1)

/-! ## Strings -/

/-- A lower-case hexadecimal digit. -/
def hexDigit (d : ℕ) : PyChar := .scalar (Nat.digitChar d)

/-- `\uXXXX`. -/
def uEscape (u : ℕ) : PyStr :=
  [.scalar '\\', .scalar 'u', hexDigit (u / 4096 % 16), hexDigit (u / 256 % 16),
    hexDigit (u / 16 % 16), hexDigit (u % 16)]

/-- The character of a two-character escape, for the characters that have one. -/
def shortEscape (c : Char) : Option Char :=
  if c = '"' then some '"'
  else if c = '\\' then some '\\'
  else if c = '\n' then some 'n'
  else if c = '\r' then some 'r'
  else if c = '\t' then some 't'
  else if c = '\x0c' then some 'f'
  else if c = '\x08' then some 'b'
  else none

/-- The text of one character inside a string. -/
def escapeChar (ascii : Bool) : PyChar → PyStr
  | .scalar c =>
    match shortEscape c with
    | some e => [.scalar '\\', .scalar e]
    | none =>
      if c.toNat < 0x20 ∨ ascii = true ∧ 0x7e < c.toNat then
        if c.toNat < 0x10000 then uEscape c.toNat
        else uEscape (0xd800 + (c.toNat - 0x10000) / 0x400) ++
          uEscape (0xdc00 + (c.toNat - 0x10000) % 0x400)
      else [.scalar c]
  | .surrogate k => if ascii = true then uEscape (0xd800 + k) else [.surrogate k]

/-- A string in quotes. -/
def strText (ascii : Bool) (s : PyStr) : PyStr :=
  .scalar '"' :: (s.flatMap (escapeChar ascii) ++ [.scalar '"'])

/-! ## Values -/

/-- The options of `dumps`: the separators and `ensure_ascii`. -/
structure DumpOpts where
  /-- Between the items of an array or an object. -/
  itemSep : PyStr
  /-- Between a key and its value. -/
  keySep : PyStr
  /-- Escape everything outside ASCII? -/
  ensureAscii : Bool

/-- The options when none are given. -/
def DumpOpts.default : DumpOpts := ⟨text ", ", text ": ", true⟩

/-- `separators=(",", ":")`. -/
def DumpOpts.compact : DumpOpts := ⟨text ",", text ":", true⟩

variable {F : Type} [JsonRuntime F]

/-- The text of a float that is not a number of the grammar. -/
def NonFinite.text : NonFinite → PyStr
  | nan => Lib.text "NaN"
  | inf => Lib.text "Infinity"
  | negInf => Lib.text "-Infinity"

mutual

/-- The text of a value. -/
def render (o : DumpOpts) : Json F → PyStr
  | .null => text "null"
  | .bool true => text "true"
  | .bool false => text "false"
  | .int n => intText n
  | .float x => JsonRuntime.floatRepr x
  | .nonFinite k => k.text
  | .str s => strText o.ensureAscii s
  | .arr [] => text "[]"
  | .arr (v :: l) => .scalar '[' :: (render o v ++ renderItems o l)
  | .obj [] => text "{}"
  | .obj (m :: l) =>
    .scalar '{' :: (strText o.ensureAscii m.1 ++ (o.keySep ++ (render o m.2 ++ renderMembers o l)))

/-- The items of an array after the first, and the closing bracket. -/
def renderItems (o : DumpOpts) : List (Json F) → PyStr
  | [] => [.scalar ']']
  | v :: l => o.itemSep ++ (render o v ++ renderItems o l)

/-- The members of an object after the first, and the closing brace. -/
def renderMembers (o : DumpOpts) : List (PyStr × Json F) → PyStr
  | [] => [.scalar '}']
  | m :: l => o.itemSep ++ (strText o.ensureAscii m.1 ++
      (o.keySep ++ (render o m.2 ++ renderMembers o l)))

end

/-- Is the integer short enough to be converted? -/
def digitsOk (F : Type) [JsonRuntime F] (n : ℕ) : Bool :=
  (JsonRuntime.digitLimit F).all fun limit => (Nat.toDigits 10 n).length ≤ limit

mutual

/-- The exception that the encoder raises on a value, with `d` levels of nesting left. -/
def check (d : ℕ) : Json F → Except StdExc Unit
  | .int n => if digitsOk F n.natAbs then .ok () else .error .valueError
  | .arr l => match d with
    | 0 => .error .recursionError
    | d + 1 => checkItems d l
  | .obj l => match d with
    | 0 => .error .recursionError
    | d + 1 => checkMembers d l
  | _ => .ok ()

/-- `check` over the items of an array. -/
def checkItems (d : ℕ) : List (Json F) → Except StdExc Unit
  | [] => .ok ()
  | v :: l => do check d v; checkItems d l

/-- `check` over the members of an object. -/
def checkMembers (d : ℕ) : List (PyStr × Json F) → Except StdExc Unit
  | [] => .ok ()
  | m :: l => do check d m.2; checkMembers d l

end

/-- `json.dumps(v)`. -/
def dumps (o : DumpOpts) (v : Json F) : Except StdExc PyStr := do
  check (JsonRuntime.maxDepth F) v
  pure (render o v)

lemma dumps_eq_ok {o : DumpOpts} {v : Json F} {s : PyStr} :
    dumps o v = .ok s ↔ check (JsonRuntime.maxDepth F) v = .ok () ∧ s = render o v := by
  unfold dumps
  cases h : check (JsonRuntime.maxDepth F) v with
  | error e => simp [bind, Except.bind]
  | ok u => simp [bind, Except.bind, pure, Except.pure, eq_comm]

/-! ## Well-formed values -/

mutual

/-- The values that a text can name: strings without surrogates, and no key twice in an object. -/
def Json.Wf : Json F → Prop
  | .str s => WellFormed s
  | .arr l => WfItems l
  | .obj l => (l.map Prod.fst).Nodup ∧ WfMembers l
  | _ => True

/-- `Json.Wf` of the items of an array. -/
def WfItems : List (Json F) → Prop
  | [] => True
  | v :: l => v.Wf ∧ WfItems l

/-- `Json.Wf` of the members of an object, and of their keys. -/
def WfMembers : List (PyStr × Json F) → Prop
  | [] => True
  | m :: l => WellFormed m.1 ∧ m.2.Wf ∧ WfMembers l

end

/-! ## Sorted keys -/

/-- The position of a character in the order of code points. -/
def PyChar.code : PyChar → ℕ
  | scalar c => c.toNat
  | surrogate k => 0xd800 + k

/-- `s <= t` on strings: the lexicographic order of code points. -/
def strLe : PyStr → PyStr → Bool
  | [], _ => true
  | _ :: _, [] => false
  | x :: s, y :: t => x.code < y.code || (x.code = y.code && strLe s t)

mutual

/-- The value with the keys of every object in order, as `sort_keys=True` writes it. -/
def sortKeys : Json F → Json F
  | .arr l => .arr (sortKeysItems l)
  | .obj l => .obj ((sortKeysMembers l).insertionSort fun m m' => strLe m.1 m'.1 = true)
  | v => v

/-- `sortKeys` over the items of an array. -/
def sortKeysItems : List (Json F) → List (Json F)
  | [] => []
  | v :: l => sortKeys v :: sortKeysItems l

/-- `sortKeys` over the members of an object. -/
def sortKeysMembers : List (PyStr × Json F) → List (PyStr × Json F)
  | [] => []
  | m :: l => (m.1, sortKeys m.2) :: sortKeysMembers l

end

end Omkit.Lib
