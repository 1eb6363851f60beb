import Omkit.Lib.Boundary
import Omkit.Lib.Escape
import Omkit.Sanitize.Spliced

/-!
# Escaping text for HTML

`sanitize_html`: script blocks and handler attributes are cut out, in one pass each, and what is
left is escaped.  What is returned has no markup, whatever the cuts leave; they leave a block or a
handler if they bring together the characters of one.
-/

namespace Omkit.Sanitize

open Lib

/-! ## Patterns -/

/-- `str.isalnum` of one character, which goes by the tables of Unicode. -/
structure Alphabet where
  isAlnum : PyChar → Bool
  isAlnum_ascii : ∀ c : Char, c.toNat < 128 → isAlnum (.scalar c) = c.isAlphanum

/-- `\w`. -/
def Alphabet.isWord (A : Alphabet) (x : PyChar) : Bool := A.isAlnum x || x = .scalar '_'

/-- `re.IGNORECASE` for a pattern with an `s`, which also stands for the long s. -/
def ignoreCaseS (c x : PyChar) : Bool :=
  ignoreCase c x || (c = .scalar 's' && x = .scalar '\u017f')

/-- `["']`. -/
def isQuote (x : PyChar) : Bool := x = .scalar '"' || x = .scalar '\''

/-- `<script[\s\S]*?</script>`. -/
def scriptBlock : Regex PyChar :=
  .seq (.lit ignoreCaseS (text "<script"))
    (.seq (.rep false anyChar) (.lit ignoreCaseS (text "</script>")))

/-- The first letter of a handler. -/
def handlerHead (x : PyChar) : Bool := ignoreCase (.scalar 'o') x

/-- What follows the first letter in `on\w+\s*=\s*["'][^"']*["']`. -/
def handlerTail (A : Alphabet) : Regex PyChar :=
  .seq (.lit ignoreCase (text "n")) (.seq (.plus true A.isWord) (.seq (.rep true isSpace)
    (.seq (.lit sameChar (text "=")) (.seq (.rep true isSpace)
      (.seq (.char isQuote) (.seq (.rep true fun x => !isQuote x) (.char isQuote)))))))

/-- `\bon\w+\s*=\s*["'][^"']*["']`. -/
def handler (A : Alphabet) : Regex (PyChar × Bool) := (handlerTail A).bounded A.isWord handlerHead

/-! ## Sanitizing -/

/-- The replacements of `html.escape`, in their order. -/
def entities : References PyChar :=
  [(.scalar '&', text "&amp;"), (.scalar '<', text "&lt;"), (.scalar '>', text "&gt;"),
    (.scalar '"', text "&quot;"), (.scalar '\'', text "&#x27;")]

/-- `html.escape(s)`. -/
def htmlEscape (s : PyStr) : PyStr := entities.replaceInTurn s

/-- `sanitize_html(text)`. -/
def sanitizeHtml (A : Alphabet) (s : PyStr) : PyStr :=
  if s = [] then []
  else htmlEscape ((handlerTail A).removeBounded A.isWord handlerHead (scriptBlock.remove s))

/-! ## Reading what is returned -/

lemma entities_apart : entities.Apart where
  marked := by
    intro r hr
    refine ⟨.scalar '&', r.2.tail, ?_, by decide⟩
    revert r
    decide
  prefixFree := by decide

/-- The ampersand is replaced first, so no reference is replaced itself. -/
lemma entities_pairwise : entities.Pairwise fun r r' => r'.1 ∉ r.2 := by decide

lemma htmlEscape_eq (s : PyStr) : htmlEscape s = entities.escape s :=
  References.replaceInTurn_eq_escape entities_pairwise s

lemma reads_htmlEscape {s t : PyStr} : entities.Reads (htmlEscape s) t ↔ t = s := by
  have hs : entities.Reads (htmlEscape s) s := by
    rw [htmlEscape_eq]
    exact entities.reads_escape s
  constructor
  · exact fun ht => ht.unique entities_apart hs
  · rintro rfl
    exact hs

/-- The characters that begin or end markup. -/
def markup : List PyChar := [.scalar '<', .scalar '>', .scalar '"', .scalar '\'']

lemma notMem_htmlEscape (s : PyStr) : ∀ c ∈ markup, c ∉ htmlEscape s := by
  have hout : ∀ c ∈ markup, c ∈ entities.map Prod.fst ∧ ∀ r ∈ entities, c ∉ r.2 := by decide
  intro c hc
  obtain ⟨hkey, hfree⟩ := hout c hc
  exact (reads_htmlEscape.mpr rfl : entities.Reads (htmlEscape s) s).notMem hkey hfree

/-! ## What is kept -/

variable {A : Alphabet} {s u : PyStr}

/-- What is left when the script blocks are cut out. -/
def unscriptedAt (s : PyStr) : Marked := (scriptBlock.comap Prod.fst).remove s.zipIdx

/-- What `sanitize_html` keeps of a text. -/
def presentedAt (A : Alphabet) (s : PyStr) : Marked :=
  ((handlerTail A).comap Prod.fst).removeBounded (A.isWord ∘ Prod.fst) (handlerHead ∘ Prod.fst)
    (unscriptedAt s)

/-- A handler of what is kept was pieced together. -/
def SplicedHandler (A : Alphabet) (t : Marked) : Prop :=
  ∃ a x w b, t = a ++ x :: (w ++ b) ∧ handlerHead x.1 = true ∧
    (handlerTail A).Matches (w.map Prod.fst) ∧ endsIn A.isWord (a.map Prod.fst) = false ∧
    ¬ Adjacent (x :: w)

lemma sanitizeHtml_eq (A : Alphabet) (s : PyStr) :
    sanitizeHtml A s = htmlEscape ((presentedAt A s).map Prod.fst) := by
  rw [presentedAt, ← Regex.removeBounded_comap, unscriptedAt, ← Regex.remove_comap, map_zipIdx,
    sanitizeHtml]
  split_ifs with hs
  · subst hs
    rfl
  · rfl

lemma presentedAt_sublist (A : Alphabet) (s : PyStr) :
    (presentedAt A s).Sublist (unscriptedAt s) :=
  Regex.removeBounded_sublist _ _ _ _

lemma unscriptedAt_sublist (s : PyStr) : (unscriptedAt s).Sublist s.zipIdx :=
  Regex.remove_sublist _ _

lemma ordered_unscriptedAt (s : PyStr) : Ordered (unscriptedAt s) :=
  (ordered_zipIdx s).sublist (unscriptedAt_sublist s)

lemma not_matches_scriptBlock_nil : ¬ scriptBlock.Matches [] := by
  have hhead : scriptBlock.StartsWith fun _ => True :=
    (Regex.startsWith_lit (text "script") fun _ _ => trivial).seq _
  exact not_matches_nil hhead

/-- Nothing is cut out of a text exactly if it has neither a block nor a handler. -/
lemma presented_eq_iff : (presentedAt A s).map Prod.fst = s ↔
    ¬ scriptBlock.Occurs s ∧ ¬ (handler A).Occurs (behind A.isWord s) := by
  have hnd : s.zipIdx.Nodup := (ordered_zipIdx s).nodup
  have hhandler : ((handlerTail A).comap Prod.fst |>.bounded (A.isWord ∘ Prod.fst)
      (handlerHead ∘ Prod.fst)).Occurs (behind (A.isWord ∘ Prod.fst) s.zipIdx) ↔
      (handler A).Occurs (behind A.isWord s) := by
    rw [← Regex.bounded_comap, Regex.occurs_comap, ← behind_map, map_zipIdx, handler]
  have hscript : (scriptBlock.comap Prod.fst).Occurs s.zipIdx ↔ scriptBlock.Occurs s := by
    rw [Regex.occurs_comap, map_zipIdx]
  constructor
  · intro h
    -- what is kept is as long as the text, and so it is the text
    have hlen : s.zipIdx.length ≤ (presentedAt A s).length := by
      have hmap := congrArg List.length h
      rw [List.length_map] at hmap
      rw [List.length_zipIdx, hmap]
    have hkept : unscriptedAt s = s.zipIdx := by
      refine (unscriptedAt_sublist s).eq_of_length_le ?_
      exact hlen.trans (presentedAt_sublist A s).length_le
    have hpresented : presentedAt A s = s.zipIdx := by
      refine ((presentedAt_sublist A s).trans (unscriptedAt_sublist s)).eq_of_length_le hlen
    constructor
    · intro ho
      obtain ⟨w, hw, hm⟩ := hscript.mpr ho
      have hne : ¬ (scriptBlock.comap Prod.fst).Matches ([] : Marked) := fun h =>
        not_matches_scriptBlock_nil (Regex.matches_comap.mp h)
      obtain ⟨x, hx, hout⟩ := Regex.remove_hits hne hnd hw hm
      exact hout ((congrArg (x ∈ ·) hkept).mpr (hw.subset hx))
    · rw [presentedAt, hkept] at hpresented
      exact fun ho => Regex.not_occurs_of_removeBounded hnd hpresented (hhandler.mpr ho)
  · rintro ⟨hs, hh⟩
    rw [presentedAt, unscriptedAt, Regex.remove_of_not_occurs fun ho => hs (hscript.mp ho),
      Regex.removeBounded_of_not_occurs fun ho => hh (hhandler.mp ho), map_zipIdx]

/-- **What is returned has no markup and is read in one way: as a part of the text, and as all of it
exactly if the text has neither a script block nor a handler.** -/
theorem sanitizeHtml_reads (A : Alphabet) (s : PyStr) : ∃ u : PyStr, u.Sublist s ∧
    (∀ t, entities.Reads (sanitizeHtml A s) t ↔ t = u) ∧ (∀ c ∈ markup, c ∉ sanitizeHtml A s) ∧
    (u = s ↔ ¬ scriptBlock.Occurs s ∧ ¬ (handler A).Occurs (behind A.isWord s)) := by
  refine ⟨(presentedAt A s).map Prod.fst, ?_, ?_, ?_, presented_eq_iff⟩
  · have hsub := ((presentedAt_sublist A s).trans (unscriptedAt_sublist s)).map Prod.fst
    rwa [map_zipIdx] at hsub
  · intro t
    rw [sanitizeHtml_eq, reads_htmlEscape]
  · rw [sanitizeHtml_eq]
    exact notMem_htmlEscape _

/-! ## Blocks and handlers that are left -/

lemma Alphabet.isWord_of_handlerHead (A : Alphabet) {x : PyChar} (hx : handlerHead x = true) :
    A.isWord x = true := by
  cases x with
  | surrogate k => cases hx
  | scalar c =>
    have hc : c = 'o' ∨ c = 'O' := by simpa [handlerHead, ignoreCase, caseVariants] using hx
    rcases hc with rfl | rfl
    · rw [isWord, A.isAlnum_ascii _ (by decide)]
      rfl
    · rw [isWord, A.isAlnum_ascii _ (by decide)]
      rfl

lemma Alphabet.isWord_of_isQuote (A : Alphabet) {x : PyChar} (hx : isQuote x = true) :
    A.isWord x = false := by
  rcases (by simpa [isQuote] using hx : x = .scalar '"' ∨ x = .scalar '\'') with rfl | rfl
  · rw [isWord, A.isAlnum_ascii _ (by decide)]
    rfl
  · rw [isWord, A.isAlnum_ascii _ (by decide)]
    rfl

lemma endsWith_handlerTail (A : Alphabet) :
    (handlerTail A).EndsWith fun x => A.isWord x = false := by
  have hquote : (Regex.char isQuote).EndsWith fun x => A.isWord x = false := by
    rintro w ⟨x, rfl, hx⟩
    exact ⟨[], x, rfl, A.isWord_of_isQuote hx⟩
  exact .seq _ (.seq _ (.seq _ (.seq _ (.seq _ (.seq _ (.seq _ hquote))))))

lemma endsIn_map (p : PyChar → Bool) (a : Marked) :
    endsIn (p ∘ Prod.fst) a = endsIn p (a.map Prod.fst) := by
  rw [endsIn, endsIn, List.getLast?_map, Option.any_map]
  rfl

/-- A handler that is left was pieced together. -/
lemma occurs_handler_iff : (handler A).Occurs (behind A.isWord ((presentedAt A s).map Prod.fst)) ↔
    SplicedHandler A (presentedAt A s) := by
  rw [handler, Regex.occurs_bounded]
  constructor
  · rintro ⟨a, x, w, b, hsplit, hx, hm, hb⟩
    obtain ⟨a, t, hpresented, rfl, ht⟩ := List.map_eq_append_iff.mp hsplit
    obtain ⟨x, t, rfl, rfl, htail⟩ := List.map_eq_cons_iff.mp ht
    obtain ⟨w, b, rfl, rfl, rfl⟩ := List.map_eq_append_iff.mp htail
    rw [A.isWord_of_handlerHead hx] at hb
    have hbound : endsIn A.isWord (a.map Prod.fst) = false := by simpa using hb
    refine ⟨a, x, w, b, hpresented, hx, hm, hbound, fun hadj => ?_⟩
    have hin : (x :: w) <:+: unscriptedAt s := by
      refine infix_of_adjacent (ordered_unscriptedAt s) hadj fun y hy => ?_
      refine (presentedAt_sublist A s).subset ?_
      rw [hpresented, ← List.cons_append]
      exact List.mem_append_right _ (List.mem_append_left _ hy)
    exact Regex.not_infix_of_bounded ((endsWith_handlerTail A).comap Prod.fst)
      (fun y hy => A.isWord_of_handlerHead hy) (ordered_unscriptedAt s).nodup hpresented hx
      (Regex.matches_comap.mpr hm) ((endsIn_map _ a).trans hbound) hin
  · rintro ⟨a, x, w, b, hpresented, hx, hm, hbound, -⟩
    refine ⟨a.map Prod.fst, x.1, w.map Prod.fst, b.map Prod.fst, by simp [hpresented], hx, hm, ?_⟩
    rw [A.isWord_of_handlerHead hx, hbound]
    rfl

/-- **A script block or a handler that can be read in what is returned was pieced together by the
cuts.** -/
theorem markup_left (h : entities.Reads (sanitizeHtml A s) u) :
    (scriptBlock.Occurs u ↔ Spliced scriptBlock (presentedAt A s)) ∧
      ((handler A).Occurs (behind A.isWord u) ↔ SplicedHandler A (presentedAt A s)) := by
  rw [sanitizeHtml_eq, reads_htmlEscape] at h
  subst h
  exact ⟨occurs_iff_spliced not_matches_scriptBlock_nil (ordered_zipIdx s)
    (presentedAt_sublist A s).subset, occurs_handler_iff⟩

/-! ## Pieces that come together -/

/-- Is the character an ASCII letter or digit? -/
def isAsciiAlnum : PyChar → Bool
  | .scalar c => c.isAlphanum
  | .surrogate _ => false

lemma isAsciiAlnum_scalar (c : Char) (_ : c.toNat < 128) :
    isAsciiAlnum (.scalar c) = c.isAlphanum := rfl

def asciiAlphabet : Alphabet := ⟨isAsciiAlnum, isAsciiAlnum_scalar⟩

/-- A script block around a script block, and a handler around a handler. -/
def nested : PyStr := text "<scr<script></script>ipt></script>onclick onx=''='z'"

theorem nested_left :
    entities.Reads (sanitizeHtml asciiAlphabet nested) (text "<script></script>onclick ='z'") ∧
      Spliced scriptBlock (presentedAt asciiAlphabet nested) ∧
      SplicedHandler asciiAlphabet (presentedAt asciiAlphabet nested) := by
  have hread : entities.Reads (sanitizeHtml asciiAlphabet nested)
      (text "<script></script>onclick ='z'") := by
    rw [sanitizeHtml_eq, reads_htmlEscape]
    decide +kernel
  obtain ⟨hscript, hhandler⟩ := markup_left hread
  exact ⟨hread, hscript.mp (by decide +kernel), hhandler.mp (by decide +kernel)⟩

end Omkit.Sanitize
