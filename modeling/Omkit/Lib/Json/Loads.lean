import Omkit.Lib.Dict
import Omkit.Lib.Json.Value

/-!
# Reading JSON text

`loads`, the decoder of the standard library: a scanner for each kind of token and a recursive
descent over values.  The descent is by recursion on a fuel that every call uses up, and it is
started with more fuel than the text can consume; the nesting limit is a separate bound, as in
the interpreter.
-/

namespace Omkit.Lib

/-! ## Strings -/

/-- One element of a string body: a character, or a `\uXXXX` escape. -/
inductive StrUnit
  | lit (x : PyChar)
  | esc (u : ℕ)

/-- The value of a hexadecimal digit. -/
def hexVal : PyChar → Option ℕ
  | .scalar c =>
    if '0' ≤ c ∧ c ≤ '9' then some (c.toNat - '0'.toNat)
    else if 'a' ≤ c ∧ c ≤ 'f' then some (c.toNat - 'a'.toNat + 10)
    else if 'A' ≤ c ∧ c ≤ 'F' then some (c.toNat - 'A'.toNat + 10)
    else none
  | .surrogate _ => none

/-- The value of four hexadecimal digits. -/
def hexVal4 (a b c d : PyChar) : Option ℕ := do
  let a ← hexVal a
  let b ← hexVal b
  let c ← hexVal c
  let d ← hexVal d
  pure (((a * 16 + b) * 16 + c) * 16 + d)

/-- The character that a two-character escape stands for. -/
def unescape : PyChar → Option Char
  | .scalar '"' => some '"'
  | .scalar '\\' => some '\\'
  | .scalar '/' => some '/'
  | .scalar 'b' => some '\x08'
  | .scalar 'f' => some '\x0c'
  | .scalar 'n' => some '\n'
  | .scalar 'r' => some '\r'
  | .scalar 't' => some '\t'
  | _ => none

/-- May the character not stand for itself inside a string? -/
def isControl : PyChar → Bool
  | .scalar c => c.toNat < 0x20
  | .surrogate _ => false

/-- Put one more unit in front of what was scanned. -/
def pushUnit (u : StrUnit) :
    Except StdExc (List StrUnit × PyStr) → Except StdExc (List StrUnit × PyStr)
  | .ok (us, r) => .ok (u :: us, r)
  | .error e => .error e

/-- The units of a string body, after the opening quote, and the text after the closing one. -/
def scanUnits : PyStr → Except StdExc (List StrUnit × PyStr)
  | [] => .error .jsonDecodeError
  | .scalar '"' :: r => .ok ([], r)
  | .scalar '\\' :: .scalar 'u' :: a :: b :: c :: d :: r =>
    match hexVal4 a b c d with
    | some u => pushUnit (.esc u) (scanUnits r)
    | none => .error .jsonDecodeError
  | .scalar '\\' :: e :: r =>
    match unescape e with
    | some c => pushUnit (.lit (.scalar c)) (scanUnits r)
    | none => .error .jsonDecodeError
  | x :: r =>
    if isControl x = true ∨ x = .scalar '\\' then .error .jsonDecodeError
    else pushUnit (.lit x) (scanUnits r)

/-- Is the unit the first half of a surrogate pair? -/
def isHigh (u : ℕ) : Bool := 0xd800 ≤ u && u < 0xdc00

/-- Is the unit the second half of a surrogate pair? -/
def isLow (u : ℕ) : Bool := 0xdc00 ≤ u && u < 0xe000

/-- The character of a `\uXXXX` escape on its own. -/
def ofUnit (u : ℕ) : PyChar :=
  if h : 0xd800 ≤ u ∧ u < 0xe000 then .surrogate ⟨u - 0xd800, by omega⟩
  else .scalar (Char.ofNat u)

/-- The string of its units: two adjacent escapes that form a surrogate pair are one character. -/
def joinUnits : List StrUnit → PyStr
  | [] => []
  | .lit x :: us => x :: joinUnits us
  | .esc u :: .esc v :: us =>
    if isHigh u && isLow v then
      .scalar (Char.ofNat (0x10000 + (u - 0xd800) * 0x400 + (v - 0xdc00))) :: joinUnits us
    else ofUnit u :: joinUnits (.esc v :: us)
  | .esc u :: us => ofUnit u :: joinUnits us

/-- A string, after the opening quote. -/
def scanString (s : PyStr) : Except StdExc (PyStr × PyStr) :=
  match scanUnits s with
  | .ok (us, r) => .ok (joinUnits us, r)
  | .error e => .error e

/-! ## Numbers -/

/-- `0`, or the longest run of digits. -/
def scanNat : PyStr → Option (PyStr × PyStr)
  | [] => none
  | x :: r =>
    if x = .scalar '0' then some ([x], r)
    else if isDigit x = true then some (x :: r.takeWhile isDigit, r.dropWhile isDigit)
    else none

/-- The integer part of a number. -/
def scanInt : PyStr → Option (PyStr × PyStr)
  | .scalar '-' :: r => (scanNat r).map fun p => (.scalar '-' :: p.1, p.2)
  | s => scanNat s

/-- The fractional part of a number, if there is one. -/
def scanFrac : PyStr → PyStr × PyStr
  | .scalar '.' :: x :: r =>
    if isDigit x = true then (.scalar '.' :: x :: r.takeWhile isDigit, r.dropWhile isDigit)
    else ([], .scalar '.' :: x :: r)
  | s => ([], s)

/-- A sign, if there is one. -/
def scanSign : PyStr → PyStr × PyStr
  | .scalar '+' :: r => ([.scalar '+'], r)
  | .scalar '-' :: r => ([.scalar '-'], r)
  | s => ([], s)

/-- The exponent of a number, if there is one. -/
def scanExp : PyStr → PyStr × PyStr
  | [] => ([], [])
  | e :: r =>
    if e = .scalar 'e' ∨ e = .scalar 'E' then
      match (scanSign r).2 with
      | [] => ([], e :: r)
      | x :: r' =>
        if isDigit x = true then
          (e :: ((scanSign r).1 ++ x :: r'.takeWhile isDigit), r'.dropWhile isDigit)
        else ([], e :: r)
    else ([], e :: r)

/-- The digits of a number without its sign. -/
def unsigned : PyStr → PyStr
  | .scalar '-' :: r => r
  | s => s

/-- The natural number of a run of ASCII digits. -/
def natOf (s : PyStr) : ℕ :=
  Nat.ofDigitChars 10 (s.filterMap PyChar.toChar?) 0

/-- The integer of an integer part. -/
def intOf : PyStr → ℤ
  | .scalar '-' :: r => -(natOf r : ℤ)
  | s => (natOf s : ℤ)

variable {F : Type} [JsonRuntime F]

/-- The value of a number, from its integer part, fractional part and exponent. -/
def numberOf (ip fp ep : PyStr) : Except StdExc (Json F) :=
  if fp = [] ∧ ep = [] then
    if (JsonRuntime.digitLimit F).all fun limit => (unsigned ip).length ≤ limit then
      .ok (.int (intOf ip))
    else .error .valueError
  else match JsonRuntime.floatOf (ip ++ (fp ++ ep)) with
    | some x => .ok (.float x)
    | none => .ok (.nonFinite (if ip.head? = some (.scalar '-') then .negInf else .inf))

/-- A number, if the text starts with one. -/
def scanNumber (s : PyStr) : Option (Except StdExc (Json F × PyStr)) :=
  (scanInt s).map fun p =>
    let f := scanFrac p.2
    let e := scanExp f.2
    (numberOf p.1 f.1 e.1).map fun v => (v, e.2)

/-! ## Values -/

/-- Is the character whitespace of the JSON grammar? -/
def isWs (x : PyChar) : Bool :=
  x = .scalar ' ' || x = .scalar '\t' || x = .scalar '\n' || x = .scalar '\r'

/-- The text after leading whitespace. -/
def skipWs (s : PyStr) : PyStr := s.dropWhile isWs

/-- The constants of the grammar, and the numbers that are not finite. -/
def keywords (F : Type) : List (PyStr × Json F) :=
  [(text "null", .null), (text "true", .bool true), (text "false", .bool false),
    (text "NaN", .nonFinite .nan), (text "Infinity", .nonFinite .inf),
    (text "-Infinity", .nonFinite .negInf)]

/-- A constant or a number. -/
def scanScalar (s : PyStr) : Except StdExc (Json F × PyStr) :=
  match (keywords F).find? fun p => p.1.isPrefixOf s with
  | some p => .ok (p.2, s.drop p.1.length)
  | none => (scanNumber s).getD (.error .jsonDecodeError)

mutual

/-- A value at the start of the text, with `d` levels of nesting left. -/
def scanValue (d : ℕ) (s : PyStr) : ℕ → Except StdExc (Json F × PyStr)
  | 0 => .error .jsonDecodeError
  | fuel + 1 =>
    match s with
    | .scalar '"' :: r => (scanString r).map fun p => (.str p.1, p.2)
    | .scalar '[' :: r => match d with
      | 0 => .error .recursionError
      | d + 1 => match skipWs r with
        | .scalar ']' :: r' => .ok (.arr [], r')
        | r' => (scanItems d r' fuel).map fun p => (.arr p.1, p.2)
    | .scalar '{' :: r => match d with
      | 0 => .error .recursionError
      | d + 1 => match skipWs r with
        | .scalar '}' :: r' => .ok (.obj [], r')
        | r' => (scanMembers d r' fuel).map fun p => (.obj (Dict.ofList p.1).items, p.2)
    | s => scanScalar s

/-- The items of an array from the next value on, and the text after the closing bracket. -/
def scanItems (d : ℕ) (s : PyStr) : ℕ → Except StdExc (List (Json F) × PyStr)
  | 0 => .error .jsonDecodeError
  | fuel + 1 =>
    match scanValue d s fuel with
    | .error e => .error e
    | .ok (v, r) => match skipWs r with
      | .scalar ']' :: r' => .ok ([v], r')
      | .scalar ',' :: r' => (scanItems d (skipWs r') fuel).map fun p => (v :: p.1, p.2)
      | _ => .error .jsonDecodeError

/-- The members of an object from the next key on, and the text after the closing brace. -/
def scanMembers (d : ℕ) (s : PyStr) : ℕ → Except StdExc (List (PyStr × Json F) × PyStr)
  | 0 => .error .jsonDecodeError
  | fuel + 1 =>
    match s with
    | .scalar '"' :: r => match scanString r with
      | .error e => .error e
      | .ok (k, r) => match skipWs r with
        | .scalar ':' :: r => match scanValue d (skipWs r) fuel with
          | .error e => .error e
          | .ok (v, r) => match skipWs r with
            | .scalar '}' :: r' => .ok ([(k, v)], r')
            | .scalar ',' :: r' =>
              (scanMembers d (skipWs r') fuel).map fun p => ((k, v) :: p.1, p.2)
            | _ => .error .jsonDecodeError
        | _ => .error .jsonDecodeError
    | _ => .error .jsonDecodeError

end

/-- `JSONDecoder.decode`: one value, and nothing but whitespace around it. -/
def decodeDocument (s : PyStr) : Except StdExc (Json F) :=
  match scanValue (JsonRuntime.maxDepth F) (skipWs s) (2 * s.length + 2) with
  | .error e => .error e
  | .ok (v, r) => if skipWs r = [] then .ok v else .error .jsonDecodeError

/-- `json.loads(s)` on a string: a byte order mark is refused. -/
def loads (s : PyStr) : Except StdExc (Json F) :=
  if s.head? = some (.scalar '\ufeff') then .error .jsonDecodeError else decodeDocument s

/-! ## Byte strings -/

/-- The encodings that `loads` tells apart. -/
inductive Encoding
  | utf8
  /-- UTF-8 after a byte order mark. -/
  | utf8Sig
  /-- UTF-16, with the byte order given: `true` for big endian. -/
  | utf16 (big : Bool)
  /-- UTF-16 after a byte order mark. -/
  | utf16Sig (big : Bool)
  | utf32 (big : Bool)
  | utf32Sig (big : Bool)
deriving DecidableEq

/-- `json.detect_encoding(b)`. -/
def detectEncoding (b : Bytes) : Encoding :=
  if [0, 0, 0xfe, 0xff].isPrefixOf b then .utf32Sig true
  else if [0xff, 0xfe, 0, 0].isPrefixOf b then .utf32Sig false
  else if [0xfe, 0xff].isPrefixOf b then .utf16Sig true
  else if [0xff, 0xfe].isPrefixOf b then .utf16Sig false
  else if [0xef, 0xbb, 0xbf].isPrefixOf b then .utf8Sig
  else match b with
    | b₀ :: b₁ :: b₂ :: b₃ :: _ =>
      if b₀ = 0 then (if b₁ = 0 then .utf32 true else .utf16 true)
      else if b₁ = 0 then (if b₂ = 0 ∧ b₃ = 0 then .utf32 false else .utf16 false)
      else .utf8
    | [b₀, b₁] => if b₀ = 0 then .utf16 true else if b₁ = 0 then .utf16 false else .utf8
    | _ => .utf8

/-- UTF-8 in which a surrogate may stand, as `errors="surrogatepass"` allows. -/
def decodeUtf8Pass (b : Bytes) : ℕ → Option PyStr
  | 0 => if b = [] then some [] else none
  | fuel + 1 =>
    if b = [] then some []
    else match b.toByteArray.utf8DecodeChar? 0 with
      | some c => (decodeUtf8Pass (b.drop c.utf8Size) fuel).map (.scalar c :: ·)
      | none => match b with
        | 0xed :: y :: z :: r =>
          if h : (0xa0 ≤ y.toNat ∧ y.toNat < 0xc0) ∧ 0x80 ≤ z.toNat ∧ z.toNat < 0xc0 then
            (decodeUtf8Pass r fuel).map
              (.surrogate ⟨(y.toNat - 0xa0) * 64 + (z.toNat - 0x80), by omega⟩ :: ·)
          else none
        | _ => none

/-- The code units of UTF-16. -/
def units16 (big : Bool) : Bytes → Option (List StrUnit)
  | [] => some []
  | [_] => none
  | x :: y :: r =>
    let u := if big then x.toNat * 256 + y.toNat else y.toNat * 256 + x.toNat
    (units16 big r).map (.esc u :: ·)

/-- The code points of UTF-32. -/
def points32 (big : Bool) : Bytes → Option PyStr
  | [] => some []
  | w :: x :: y :: z :: r =>
    let l := if big then [w, x, y, z] else [z, y, x, w]
    let u := l.foldl (fun n b => n * 256 + b.toNat) 0
    if u < 0x110000 then (points32 big r).map (ofUnit u :: ·) else none
  | _ => none

/-- `b.decode(encoding, "surrogatepass")`. -/
def decodeAs : Encoding → Bytes → Option PyStr
  | .utf8, b => decodeUtf8Pass b b.length
  | .utf8Sig, b => decodeUtf8Pass (b.drop 3) b.length
  | .utf16 big, b => (units16 big b).map joinUnits
  | .utf16Sig big, b => (units16 big (b.drop 2)).map joinUnits
  | .utf32 big, b => points32 big b
  | .utf32Sig big, b => points32 big (b.drop 4)

/-- `json.loads(b)` on a byte string. -/
def loadsBytes (b : Bytes) : Except StdExc (Json F) :=
  match decodeAs (detectEncoding b) b with
  | none => .error .unicodeDecodeError
  | some s => decodeDocument s

end Omkit.Lib
