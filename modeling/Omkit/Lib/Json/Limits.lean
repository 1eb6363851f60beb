import Omkit.Lib.Json.Scan

/-!
# The limits of the decoder

`loads` fails in three ways: on a mistake in the syntax, on an integer with too many digits, and on
brackets that are nested too deep.  The last two are told by the places that the decoder comes to
before its first mistake.
-/

namespace Omkit.Lib

variable {F : Type} [JsonRuntime F]

/-- A place in a text where the decoder expects a value, the items of an array or the members of an
object, with the levels of nesting that are left. -/
inductive Place
  | value (d : ℕ) (s : PyStr)
  | items (d : ℕ) (s : PyStr)
  | members (d : ℕ) (s : PyStr)

/-- From a place the decoder comes to the text `u` of a value, with `n` levels of nesting left. -/
inductive Reaches (F : Type) [JsonRuntime F] (n : ℕ) (u : PyStr) : Place → Prop
  | here : Reaches F n u (.value n u)
  | array {d t} (hopen : ∀ r, skipWs t ≠ .scalar ']' :: r)
      (h : Reaches F n u (.items d (skipWs t))) : Reaches F n u (.value (d + 1) (.scalar '[' :: t))
  | object {d t} (hopen : ∀ r, skipWs t ≠ .scalar '}' :: r)
      (h : Reaches F n u (.members d (skipWs t))) :
      Reaches F n u (.value (d + 1) (.scalar '{' :: t))
  | item {d s} (h : Reaches F n u (.value d s)) : Reaches F n u (.items d s)
  | nextItem {d s r t} {v : Json F} (hv : Reads d s v r) (hcomma : skipWs r = .scalar ',' :: t)
      (h : Reaches F n u (.items d (skipWs t))) : Reaches F n u (.items d s)
  | member {d s k t} (hk : scanKey s = .ok (k, t)) (h : Reaches F n u (.value d t)) :
      Reaches F n u (.members d s)
  | nextMember {d s k t r t'} {v : Json F} (hk : scanKey s = .ok (k, t)) (hv : Reads d t v r)
      (hcomma : skipWs r = .scalar ',' :: t') (h : Reaches F n u (.members d (skipWs t'))) :
      Reaches F n u (.members d s)

/-- The text starts with an integer of more digits than may be converted. -/
def Oversized (F : Type) [JsonRuntime F] (u : PyStr) : Prop :=
  ∃ ip t, scanInt u = some (ip, t) ∧ (scanFrac t).1 = [] ∧ (scanExp t).1 = [] ∧
    ∃ limit ∈ JsonRuntime.digitLimit F, limit < (unsigned ip).length

/-- What goes over a limit at a place where `n` levels of nesting are left, and the exception. -/
def Offends (F : Type) [JsonRuntime F] (n : ℕ) (u : PyStr) : StdExc → Prop
  | .valueError => Oversized F u
  | .recursionError => n = 0 ∧ Bracketed u
  | _ => False

/-- Reading on from a place raises an exception. -/
def Place.Fails (F : Type) [JsonRuntime F] (fuel : ℕ) (e : StdExc) : Place → Prop
  | .value d s => scanValue (F := F) d s fuel = .error e
  | .items d s => scanItems (F := F) d s fuel = .error e
  | .members d s => scanMembers (F := F) d s fuel = .error e

/-- Fuel that is enough to read on from a place. -/
def Place.fuel : Place → ℕ
  | .value _ s => 2 * s.length + 1
  | .items _ s => 2 * s.length + 2
  | .members _ s => 2 * s.length + 2

lemma map_eq_error {α β : Type} {f : α → β} {x : Except StdExc α} {e : StdExc}
    (h : x.map f = .error e) : x = .error e := by
  cases x with
  | error e' => rw [← Except.error.inj h]
  | ok a => cases h

/-- An integer that is too long is where the scalar fails. -/
lemma scanScalar_error {s : PyStr} {e : StdExc} (h : scanScalar (F := F) s = .error e)
    (he : e ≠ .jsonDecodeError) : e = .valueError ∧ Oversized F s := by
  rcases scanScalar_cases (F := F) s with ⟨p, -, r, -, hok⟩ | ⟨ip, t, hint, hnum⟩ | herr
  · rw [hok] at h
    cases h
  · obtain ⟨rfl, hf, hx, hlimit⟩ := numberOf_error (map_eq_error (hnum.symm.trans h))
    have ht : (scanFrac t).2 = t := by
      have hparts := (scanFrac_parts t).1
      rw [hf, List.nil_append] at hparts
      exact hparts.symm
    rw [ht] at hx
    exact ⟨rfl, ip, t, hint, hf, hx, hlimit⟩
  · rw [herr] at h
    exact absurd (Except.error.inj h).symm he

lemma scanScalar_of_oversized {s : PyStr} (h : Oversized F s) :
    Plain s ∧ scanScalar (F := F) s = .error .valueError := by
  obtain ⟨ip, t, hint, hf, hx, limit, hlimit, hlong⟩ := h
  obtain ⟨rfl, hi⟩ := scanInt_parts hint
  have ht : (scanFrac t).2 = t := by
    have hparts := (scanFrac_parts t).1
    rw [hf, List.nil_append] at hparts
    exact hparts.symm
  have hnum : numberOf (F := F) ip [] [] = .error .valueError := by
    rw [numberOf, if_pos ⟨rfl, rfl⟩, if_neg]
    rw [Option.mem_def.mp hlimit, Option.all_some, decide_eq_true_eq]
    omega
  refine ⟨?_, ?_⟩
  · obtain ⟨c, w, rfl, hc⟩ := intLit_head hi
    intro x hx
    obtain rfl : PyChar.scalar c = x := by simpa using hx
    exact ⟨numberHead_ne hc (by decide) (by decide), numberHead_ne hc (by decide) (by decide),
      numberHead_ne hc (by decide) (by decide)⟩
  · rw [scanScalar, find?_keywords hi, scanNumber, hint]
    simp only [Option.map_some, hf, ht, hx, hnum, Option.getD_some]
    rfl

/-! ## A failure has its place -/

section Forward

variable {e : StdExc} {fuel d : ℕ} {s : PyStr}

/-- What reading on with some fuel says about the places of a failure. -/
def Placed (F : Type) [JsonRuntime F] (e : StdExc) (fuel : ℕ) : Prop :=
  ∀ p : Place, p.Fails F fuel e → ∃ n u, Reaches F n u p ∧ Offends F n u e

variable (he : e ≠ .jsonDecodeError) (ih : Placed F e fuel)

include he ih

lemma placed_value (h : scanValue (F := F) d s (fuel + 1) = .error e) :
    ∃ n u, Reaches F n u (.value d s) ∧ Offends F n u e := by
  rcases start_cases s with ⟨t, rfl⟩ | ⟨t, rfl | rfl⟩ | hplain
  · exact absurd (scanString_error (map_eq_error (scanValue_quote.symm.trans h))) he
  · cases d with
    | zero =>
      rw [scanValue_deep ⟨t, Or.inl rfl⟩] at h
      obtain rfl := Except.error.inj h
      exact ⟨0, _, .here, rfl, t, Or.inl rfl⟩
    | succ d =>
      rcases closed_or_not (.scalar ']') t with ⟨r', hr'⟩ | hopen
      · rw [scanValue_arr_nil hr'] at h
        cases h
      · rw [scanValue_arr hopen] at h
        obtain ⟨n, u, hreach, hoff⟩ := ih (.items d (skipWs t)) (map_eq_error h)
        exact ⟨n, u, .array hopen hreach, hoff⟩
  · cases d with
    | zero =>
      rw [scanValue_deep ⟨t, Or.inr rfl⟩] at h
      obtain rfl := Except.error.inj h
      exact ⟨0, _, .here, rfl, t, Or.inr rfl⟩
    | succ d =>
      rcases closed_or_not (.scalar '}') t with ⟨r', hr'⟩ | hopen
      · rw [scanValue_obj_nil hr'] at h
        cases h
      · rw [scanValue_obj hopen] at h
        obtain ⟨n, u, hreach, hoff⟩ := ih (.members d (skipWs t)) (map_eq_error h)
        exact ⟨n, u, .object hopen hreach, hoff⟩
  · rw [scanValue_plain hplain] at h
    obtain ⟨rfl, hbig⟩ := scanScalar_error h he
    exact ⟨d, s, .here, hbig⟩

lemma placed_items (h : scanItems (F := F) d s (fuel + 1) = .error e) :
    ∃ n u, Reaches F n u (.items d s) ∧ Offends F n u e := by
  cases hv : scanValue (F := F) d s fuel with
  | error e' =>
    rw [scanItems_error hv] at h
    obtain rfl := Except.error.inj h
    obtain ⟨n, u, hreach, hoff⟩ := ih (.value d s) hv
    exact ⟨n, u, .item hreach, hoff⟩
  | ok p =>
    obtain ⟨v, r⟩ := p
    rcases closed_or_not (.scalar ']') r with ⟨t, ht⟩ | hclose
    · rw [scanItems_close hv ht] at h
      cases h
    rcases closed_or_not (.scalar ',') r with ⟨t, ht⟩ | hcomma
    · rw [scanItems_comma hv ht] at h
      obtain ⟨n, u, hreach, hoff⟩ := ih (.items d (skipWs t)) (map_eq_error h)
      exact ⟨n, u, .nextItem (reads_of_scanValue hv) ht hreach, hoff⟩
    · rw [scanItems_other hv hclose hcomma] at h
      exact absurd (Except.error.inj h).symm he

lemma placed_members (h : scanMembers (F := F) d s (fuel + 1) = .error e) :
    ∃ n u, Reaches F n u (.members d s) ∧ Offends F n u e := by
  cases hk : scanKey s with
  | error e' =>
    rw [scanMembers_key_error hk] at h
    exact absurd (Except.error.inj h).symm he
  | ok p =>
    obtain ⟨k, y⟩ := p
    cases hv : scanValue (F := F) d y fuel with
    | error e' =>
      rw [scanMembers_value_error hk hv] at h
      obtain rfl := Except.error.inj h
      obtain ⟨n, u, hreach, hoff⟩ := ih (.value d y) hv
      exact ⟨n, u, .member hk hreach, hoff⟩
    | ok p =>
      obtain ⟨v, r⟩ := p
      rcases closed_or_not (.scalar '}') r with ⟨t, ht⟩ | hclose
      · rw [scanMembers_close hk hv ht] at h
        cases h
      rcases closed_or_not (.scalar ',') r with ⟨t, ht⟩ | hcomma
      · rw [scanMembers_comma hk hv ht] at h
        obtain ⟨n, u, hreach, hoff⟩ := ih (.members d (skipWs t)) (map_eq_error h)
        exact ⟨n, u, .nextMember hk (reads_of_scanValue hv) ht hreach, hoff⟩
      · rw [scanMembers_other hk hv hclose hcomma] at h
        exact absurd (Except.error.inj h).symm he

omit ih in
/-- A failure that is no mistake in the syntax comes from a place that goes over a limit. -/
theorem placed (fuel : ℕ) : Placed F e fuel := by
  induction fuel with
  | zero =>
    intro p hp
    cases p <;> exact absurd (Except.error.inj hp).symm he
  | succ fuel ih =>
    intro p hp
    cases p with
    | value d s => exact placed_value he ih hp
    | items d s => exact placed_items he ih hp
    | members d s => exact placed_members he ih hp

end Forward

/-! ## A place over a limit is a failure -/

lemma fails_here {n fuel : ℕ} {u : PyStr} {e : StdExc} (h : Offends F n u e) :
    scanValue (F := F) n u (fuel + 1) = .error e := by
  cases e with
  | valueError =>
    obtain ⟨hplain, hscalar⟩ := scanScalar_of_oversized h
    rw [scanValue_plain hplain, hscalar]
  | recursionError =>
    obtain ⟨rfl, hb⟩ := h
    exact scanValue_deep hb
  | _ => exact h.elim

/-- The decoder fails at the first place over a limit. -/
theorem fails_of_reaches {n : ℕ} {u : PyStr} {p : Place} {e : StdExc} (h : Reaches F n u p)
    (hoff : Offends F n u e) : ∀ fuel, p.fuel ≤ fuel → p.Fails F fuel e := by
  -- on the way to the place; each step inward shortens the text and costs one unit of fuel
  induction h with
  | here =>
    intro fuel hf
    obtain ⟨f, rfl, -⟩ := exists_succ hf
    exact fails_here hoff
  | @array d t hopen h ih =>
    intro fuel hf
    have hle := length_skipWs_le t
    obtain ⟨f, rfl, hlt⟩ := exists_succ hf
    have hfail : scanItems (F := F) d (skipWs t) f = .error e := ih f (by
      simp only [Place.fuel, List.length_cons] at hf ⊢
      omega)
    show scanValue (F := F) _ _ _ = _
    rw [scanValue_arr hopen, hfail]
    rfl
  | @object d t hopen h ih =>
    intro fuel hf
    have hle := length_skipWs_le t
    obtain ⟨f, rfl, hlt⟩ := exists_succ hf
    have hfail : scanMembers (F := F) d (skipWs t) f = .error e := ih f (by
      simp only [Place.fuel, List.length_cons] at hf ⊢
      omega)
    show scanValue (F := F) _ _ _ = _
    rw [scanValue_obj hopen, hfail]
    rfl
  | @item d s h ih =>
    intro fuel hf
    obtain ⟨f, rfl, hlt⟩ := exists_succ hf
    exact scanItems_error (ih f hlt)
  | @nextItem d s r t v hv hcomma h ih =>
    intro fuel hf
    obtain ⟨f, rfl, hlt⟩ := exists_succ hf
    have hlen := ((extends_all _).value_before hv (by decide) hcomma).1
    have hle := length_skipWs_le t
    have hfail : scanItems (F := F) d (skipWs t) f = .error e := ih f (by
      simp only [Place.fuel] at hf ⊢
      omega)
    show scanItems (F := F) _ _ _ = _
    rw [scanItems_comma (hv.scanValue hlt) hcomma, hfail]
    rfl
  | @member d s k t hk h ih =>
    intro fuel hf
    obtain ⟨f, rfl, hlt⟩ := exists_succ hf
    have hlen := length_of_scanKey hk
    exact scanMembers_value_error hk (ih f (by
      simp only [Place.fuel] at hf ⊢
      omega))
  | @nextMember d s k t r t' v hk hv hcomma h ih =>
    intro fuel hf
    obtain ⟨f, rfl, hlt⟩ := exists_succ hf
    -- the fuel must do for the value that is read first, too
    have hklen := length_of_scanKey hk
    have hlen := ((extends_all _).value_before hv (by decide) hcomma).1
    have hle := length_skipWs_le t'
    have hread : 2 * t.length + 1 ≤ f := by
      simp only [Place.fuel] at hf
      omega
    have hfail : scanMembers (F := F) d (skipWs t') f = .error e := ih f (by
      simp only [Place.fuel] at hf ⊢
      omega)
    show scanMembers (F := F) _ _ _ = _
    rw [scanMembers_comma hk (hv.scanValue hread) hcomma, hfail]
    rfl

/-! ## Documents -/

/-- In a document the decoder comes to an integer of too many digits, or to brackets that are nested
too deep, before any mistake in the syntax. -/
def Exceeds (F : Type) [JsonRuntime F] (s : PyStr) (e : StdExc) : Prop :=
  ∃ n u, Reaches F n u (.value (JsonRuntime.maxDepth F) (skipWs s)) ∧ Offends F n u e

/-- **A document that is refused for something else than its syntax exceeds a limit.** -/
theorem decodeDocument_error_iff {s : PyStr} {e : StdExc} (he : e ≠ .jsonDecodeError) :
    decodeDocument (F := F) s = .error e ↔ Exceeds F s e := by
  rw [decodeDocument]
  constructor
  · intro h
    split at h
    · next e' hv =>
      obtain rfl := Except.error.inj h
      exact placed he _ (.value _ _) hv
    · split at h
      · cases h
      · exact absurd (Except.error.inj h).symm he
  · rintro ⟨n, u, hreach, hoff⟩
    have hle := length_skipWs_le s
    have hfail : scanValue (F := F) _ _ _ = _ := fails_of_reaches hreach hoff (2 * s.length + 2) (by
      simp only [Place.fuel]
      omega)
    rw [hfail]

/-- A text that starts with a byte order mark is refused before it is read. -/
theorem loads_error_iff_exceeds {s : PyStr} {e : StdExc} (he : e ≠ .jsonDecodeError) :
    loads (F := F) s = .error e ↔ s.head? ≠ some (.scalar '\ufeff') ∧ Exceeds F s e := by
  rw [loads, ← decodeDocument_error_iff he]
  split
  · next hbom =>
    exact iff_of_false (fun h => he (Except.error.inj h).symm) fun h => h.1 hbom
  · next hbom => exact (and_iff_right hbom).symm

end Omkit.Lib
