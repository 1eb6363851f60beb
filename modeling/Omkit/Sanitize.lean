import Omkit.Lib.Json.Indent
import Omkit.Lib.Regex
import Omkit.Lib.Whitespace

/-!
# Cleaning the text of a language model

`sanitize_llm_output`, `sanitize_llm_response` and `extract_json`: think blocks, code fences, inline
images and links to images are cut out, and what remains is searched for a JSON document.
-/

namespace Omkit.Sanitize

open Lib

/-! ## Patterns -/

/-- The characters that a lower-case letter of a pattern stands for under `re.IGNORECASE`. -/
def caseVariants : Char → List Char
  | 'i' => ['i', 'I', '\u0130', '\u0131']
  | 'k' => ['k', 'K', '\u212a']
  | c => [c, c.toUpper]

/-- Does a character of a pattern stand for the character `x` under `re.IGNORECASE`? -/
def ignoreCase : PyChar → PyChar → Bool
  | .scalar c, .scalar x => x ∈ caseVariants c
  | _, _ => false

/-- A character of a pattern stands for itself. -/
def sameChar (c x : PyChar) : Bool := x = c

/-- Any character, the line breaks included. -/
def anyChar (_ : PyChar) : Bool := true

/-- `[A-Za-z0-9+/=]`. -/
def isBase64 : PyChar → Bool
  | .scalar c => c.isAlphanum || c ∈ ['+', '/', '=']
  | .surrogate _ => false

/-- `<think>[\s\S]*?</think>`. -/
def thinkBlock (eqv : PyChar → PyChar → Bool) : Regex PyChar :=
  .seq (.lit eqv (text "<think>")) (.seq (.rep false anyChar) (.lit eqv (text "</think>")))

/-- The code fence: three backquotes, perhaps `json`, whitespace, and the shortest text up to three
backquotes. -/
def codeFence : Regex PyChar :=
  .seq (.lit sameChar (text "```")) (.seq (.opt (.lit sameChar (text "json")))
    (.seq (.rep true isSpace) (.seq (.group (.rep false anyChar)) (.lit sameChar (text "```")))))

/-- `data:image/[^;]+;base64,[A-Za-z0-9+/=]+`. -/
def dataUri : Regex PyChar :=
  .seq (.lit sameChar (text "data:image/")) (.seq (.plus true (· ≠ .scalar ';'))
    (.seq (.lit sameChar (text ";base64,")) (.plus true isBase64)))

/-- `!\[[^\]]*\]\([^)]+\)`. -/
def markdownImage : Regex PyChar :=
  .seq (.lit sameChar (text "![")) (.seq (.rep true (· ≠ .scalar ']'))
    (.seq (.lit sameChar (text "](")) (.seq (.plus true (· ≠ .scalar ')'))
      (.lit sameChar (text ")")))))

/-! ## Sanitizing -/

/-- `sanitize_llm_output(text)`. -/
def sanitizeLlmOutput (s : PyStr) : PyStr :=
  if s = [] then [] else strip ((thinkBlock sameChar).remove s)

/-- One of the characters `{` and `[`. -/
def isOpen (x : PyChar) : Bool := x = .scalar '{' || x = .scalar '['

section

variable {F : Type} [JsonRuntime F]

/-- `json.loads(s)`, with `None` for a `JSONDecodeError`. -/
def tryLoads (s : PyStr) : Except StdExc (Option (Json F)) :=
  match loads s with
  | .ok v => .ok (some v)
  | .error .jsonDecodeError => .ok none
  | .error e => .error e

variable (F) in
/-- The last step of `sanitize_llm_response`: a text that is JSON is written anew.  The indenting
encoder recurses to a `depth` of its own. -/
def normalise (depth : ℕ) (s : PyStr) : Except StdExc PyStr :=
  if s.head?.any isOpen then do
    match ← tryLoads (F := F) s with
    | some v => dumpsIndent depth 2 v
    | none => pure s
  else .ok s

variable (F) in
/-- `sanitize_llm_response(text)`. -/
def sanitizeLlmResponse (depth : ℕ) (s : PyStr) : Except StdExc PyStr :=
  if s = [] then .ok []
  else
    let s := strip ((thinkBlock ignoreCase).remove s)
    let s := match codeFence.search s with
      | some m => strip (m.group.getD [])
      | none => s
    let s := markdownImage.remove (dataUri.remove s)
    (normalise F depth (strip s)).map strip

/-! ## Extracting -/

/-- `"}" if bracket == "{" else "]"`. -/
def closing (bracket : PyChar) : PyChar := if bracket = .scalar '{' then .scalar '}' else .scalar ']'

/-- The loop of `extract_json`: the text up to the bracket that brings the depth back to zero. -/
def untilClosed (bracket close : PyChar) (depth : ℤ) : PyStr → Option PyStr
  | [] => none
  | x :: s =>
    if x = bracket then (untilClosed bracket close (depth + 1) s).map (x :: ·)
    else if x = close then
      if depth - 1 = 0 then some [x] else (untilClosed bracket close (depth - 1) s).map (x :: ·)
    else (untilClosed bracket close depth s).map (x :: ·)

/-- `extract_json` from the first bracket on. -/
def parseOrScan : PyStr → Except StdExc (Option (Json F))
  | [] => .ok none
  | bracket :: r => do
    match ← tryLoads (bracket :: r) with
    | some v => pure (some v)
    | none =>
      match untilClosed bracket (closing bracket) 0 (bracket :: r) with
      | some t => tryLoads t
      | none => pure none

/-- `extract_json(text)`. -/
def extractJson (depth : ℕ) (s : PyStr) : Except StdExc (Option (Json F)) :=
  if s = [] then .ok none
  else do
    let cleaned ← sanitizeLlmResponse F depth s
    parseOrScan (cleaned.dropWhile fun x => !isOpen x)

end

end Omkit.Sanitize
