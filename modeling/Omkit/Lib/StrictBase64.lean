import Omkit.Lib.Base64

/-!
# Strict base64

The decoder that refuses what the lenient one skips, and texts without their padding.  With padding
to spare, the lenient decoder reads both.
-/

namespace Omkit.Lib

/-- The strict decoder in the middle of a text; `padded` says that the padding has begun. -/
def strictLoop (q : Quad) (pads : ℕ) (padded : Bool) : PyStr → Option Bytes
  | [] => if q.pos = 0 then some [] else none
  | x :: s =>
    if x = .scalar '=' then
      if 2 ≤ q.pos then
        if 4 ≤ q.pos + (pads + 1) then if s = [] then some [] else none
        else strictLoop q (pads + 1) true s
      else strictLoop q pads true s
    else match (b64Val x).filter fun _ => !padded with
      | none => none
      | some v => (strictLoop (q.push v).2 0 false s).map ((q.push v).1.toList ++ ·)

/-- Is the character in ASCII? -/
def isAscii : PyChar → Bool
  | .scalar c => c.toNat < 128
  | .surrogate _ => false

/-- `base64.b64decode(s, validate=True)` of a text; `none` is a `ValueError`. -/
def b64decodeStrict (s : PyStr) : Option Bytes :=
  if s.all isAscii ∧ s.head? ≠ some (.scalar '=') then strictLoop .q0 0 false s else none

/-- A text without its padding. -/
def unpadded (s : PyStr) : PyStr := s.filter (· ≠ .scalar '=')

lemma b64decode_of_ascii {s : PyStr} (h : s.all isAscii) : b64decode s = b64Loop .q0 0 s :=
  if_pos h

/-! ## What the strict decoder reads -/

/-- The lenient decoder reads it as well. -/
lemma b64Loop_of_strict {q : Quad} {pads : ℕ} {padded : Bool} {s : PyStr} {b : Bytes}
    (h : strictLoop q pads padded s = some b) : b64Loop q pads s = some b := by
  induction s generalizing q pads padded b with
  | nil => exact h
  | cons x s ih =>
    rw [strictLoop] at h
    rw [b64Loop]
    split_ifs at h ⊢ with hpad hpos hfull hend
    · exact h
    · exact ih h
    · exact ih h
    · split at h
      · cases h
      · next v hv =>
        obtain ⟨c, hc, rfl⟩ := Option.map_eq_some_iff.mp h
        rw [(Option.filter_eq_some_iff.mp hv).1]
        exact Option.map_eq_some_iff.mpr ⟨c, ih hc, rfl⟩

/-- It is in the standard alphabet. -/
lemma alphabet_of_strict {q : Quad} {pads : ℕ} {padded : Bool} {s : PyStr} {b : Bytes}
    (h : strictLoop q pads padded s = some b) :
    ∀ x ∈ s, x = .scalar '=' ∨ (b64Val x).isSome := by
  induction s generalizing q pads padded b with
  | nil => simp
  | cons x s ih =>
    rw [strictLoop] at h
    refine List.forall_mem_cons.mpr ?_
    split_ifs at h with hpad hpos hfull hend
    · subst hend
      exact ⟨Or.inl hpad, by simp⟩
    · exact ⟨Or.inl hpad, ih h⟩
    · exact ⟨Or.inl hpad, ih h⟩
    · split at h
      · cases h
      · next v hv =>
        obtain ⟨c, hc, -⟩ := Option.map_eq_some_iff.mp h
        exact ⟨Or.inr (Option.isSome_of_eq_some (Option.filter_eq_some_iff.mp hv).1), ih hc⟩

/-- Padding at the end of a text is not needed. -/
lemma b64Loop_append_pads {q : Quad} {pads : ℕ} {s : PyStr} {b : Bytes}
    (h : b64Loop q pads s = some b) : b64Loop q pads (s ++ text "==") = some b := by
  induction s generalizing q pads b with
  | nil =>
    cases q with
    | q0 => exact h
    | q1 l | q2 l | q3 l => cases h
  | cons x s ih =>
    rw [List.cons_append, b64Loop]
    rw [b64Loop] at h
    split_ifs at h ⊢ with hpad hpos hfull
    · exact h
    · exact ih h
    · exact ih h
    · cases hv : b64Val x with
      | none =>
        simp only [hv] at h
        exact ih h
      | some v =>
        simp only [hv] at h
        obtain ⟨c, hc, rfl⟩ := Option.map_eq_some_iff.mp h
        exact Option.map_eq_some_iff.mpr ⟨c, ih hc, rfl⟩

lemma ofUrlSafe_of_isSome {x : PyChar} (h : (b64Val x).isSome) : ofUrlSafe x = x := by
  rw [ofUrlSafe]
  split_ifs with hdash hunder
  · rw [hdash] at h
    cases h
  · rw [hunder] at h
    cases h
  · rfl

/-- **What the strict decoder reads, the lenient one of the URL-safe alphabet reads too, with more
padding.** -/
theorem urlsafeB64decode_of_strict {s : PyStr} {b : Bytes} (h : b64decodeStrict s = some b) :
    urlsafeB64decode (s ++ text "==") = some b := by
  rw [b64decodeStrict] at h
  split_ifs at h with hs
  have hsame : s.map ofUrlSafe = s := by
    refine (List.map_congr_left fun x hx => ?_).trans (List.map_id s)
    rcases alphabet_of_strict h x hx with rfl | hval
    · rfl
    · exact ofUrlSafe_of_isSome hval
  have hascii : (s ++ text "==").all isAscii := by
    rw [List.all_append, hs.1]
    rfl
  rw [urlsafeB64decode, List.map_append, hsame]
  exact (b64decode_of_ascii hascii).trans (b64Loop_append_pads (b64Loop_of_strict h))

/-! ## Texts without padding -/

lemma unpadded_b64Char {v : ℕ} (hv : v < 64) (s : PyStr) :
    unpadded (b64Char v :: s) = b64Char v :: unpadded s :=
  List.filter_cons_of_pos (decide_eq_true (b64Char_ne_pad v hv))

/-- The decoder reads a text without its padding, if there is padding to spare. -/
lemma b64Loop_unpadded (b : Bytes) :
    b64Loop .q0 0 (unpadded (b64encode b) ++ text "==") = some b := by
  have hread := b64Loop_b64encode b
  fun_induction b64encode b with
  | case1 => rfl
  | case2 a =>
    have ha := a.toNat_lt
    rw [unpadded_b64Char (by omega), unpadded_b64Char (by omega)]
    exact hread
  | case3 a b =>
    have ha := a.toNat_lt
    have hb := b.toNat_lt
    rw [unpadded_b64Char (by omega), unpadded_b64Char (by omega), unpadded_b64Char (by omega)]
    rw [b64Loop_b64Char (by omega), b64Loop_b64Char (by omega), b64Loop_b64Char (by omega)] at hread
    simp only [List.cons_append]
    rw [b64Loop_b64Char (by omega), b64Loop_b64Char (by omega), b64Loop_b64Char (by omega)]
    exact hread
  | case4 a b c r ih =>
    have ha := a.toNat_lt
    have hb := b.toNat_lt
    have hc := c.toNat_lt
    have hgroup := ih (b64Loop_b64encode r)
    rw [b64Loop_b64Char (by omega), b64Loop_b64Char (by omega), b64Loop_b64Char (by omega),
      b64Loop_b64Char (by omega)] at hread
    rw [unpadded_b64Char (by omega), unpadded_b64Char (by omega), unpadded_b64Char (by omega),
      unpadded_b64Char (by omega)]
    simp only [List.cons_append]
    rw [b64Loop_b64Char (by omega), b64Loop_b64Char (by omega), b64Loop_b64Char (by omega),
      b64Loop_b64Char (by omega)]
    simp only [Quad.push] at hread ⊢
    rw [hgroup]
    rwa [b64Loop_b64encode] at hread

lemma length_b64encode (b : Bytes) : (b64encode b).length = 4 * ((b.length + 2) / 3) := by
  fun_induction b64encode b with
  | case1 => rfl
  | case2 a | case3 a b => simp
  | case4 a b c r ih =>
    simp only [List.length_cons, ih]
    omega

end Omkit.Lib
