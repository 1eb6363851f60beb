import Omkit.Lib.Json.RoundTrip
import Mathlib.Data.List.TakeWhile

/-!
# What the decoder reads

The scanners on any text: what they return is a proper part of it, what follows does not matter once
a value has ended, and the fuel that `loads` starts with is enough.
-/

namespace Omkit.Lib

variable {F : Type} [JsonRuntime F]

/-! ## Strings -/

lemma pushUnit_eq_ok {u : StrUnit} {e : Except StdExc (List StrUnit × PyStr)}
    {us : List StrUnit} {r : PyStr} (h : pushUnit u e = .ok (us, r)) :
    ∃ us', e = .ok (us', r) ∧ us = u :: us' := by
  cases e with
  | error e => cases h
  | ok p =>
    obtain ⟨us', r'⟩ := p
    obtain ⟨rfl, rfl⟩ := Prod.mk.inj (Except.ok.inj h)
    exact ⟨us', rfl, rfl⟩

lemma pushUnit_eq_error {u : StrUnit} {e : Except StdExc (List StrUnit × PyStr)} {x : StdExc}
    (h : pushUnit u e = .error x) : e = .error x := by
  cases e with
  | error e => exact h
  | ok p => cases h

lemma scanUnits_escape {e : PyChar} {c : Char} (he : unescape e = some c) (r : PyStr) :
    scanUnits (.scalar '\\' :: e :: r) = pushUnit (.lit (.scalar c)) (scanUnits r) := by
  rw [scanUnits]
  · rw [he]
  · rintro a b c d t rfl
    cases he

/-- A string body ends at its quotation mark, whatever follows. -/
lemma scanUnits_append {s r : PyStr} {us : List StrUnit} (h : scanUnits s = .ok (us, r)) :
    r.length < s.length ∧ ∀ q, scanUnits (s ++ q) = .ok (us, r ++ q) := by
  fun_induction scanUnits s generalizing us with
  | case1 => cases h
  | case2 t =>
    obtain ⟨rfl, rfl⟩ := Prod.mk.inj (Except.ok.inj h)
    exact ⟨by simp, fun q => rfl⟩
  | case3 a b c d t u hu ih =>
    obtain ⟨us', hrest, rfl⟩ := pushUnit_eq_ok h
    obtain ⟨hlen, happ⟩ := ih hrest
    refine ⟨by simp only [List.length_cons]; omega, fun q => ?_⟩
    simp only [List.cons_append, scanUnits, hu, happ q]
    rfl
  | case4 a b c d t hu => cases h
  | case5 e t hno c hc ih =>
    obtain ⟨us', hrest, rfl⟩ := pushUnit_eq_ok h
    obtain ⟨hlen, happ⟩ := ih hrest
    refine ⟨by simp only [List.length_cons]; omega, fun q => ?_⟩
    rw [List.cons_append, List.cons_append, scanUnits_escape hc, happ q]
    rfl
  | case6 e t hno hc => cases h
  | case7 x t hbad => cases h
  | case8 x t hq hu hesc hx ih =>
    obtain ⟨us', hrest, rfl⟩ := pushUnit_eq_ok h
    obtain ⟨hlen, happ⟩ := ih hrest
    rw [not_or, Bool.not_eq_true] at hx
    refine ⟨by simp only [List.length_cons]; omega, fun q => ?_⟩
    rw [List.cons_append, scanUnits_lit hq hx.2 hx.1, happ q]
    rfl

/-- A string body can only fail in its syntax. -/
lemma scanUnits_error {s : PyStr} {e : StdExc} (h : scanUnits s = .error e) :
    e = .jsonDecodeError := by
  fun_induction scanUnits s with
  | case1 | case4 | case6 | case7 => exact (Except.error.inj h).symm
  | case2 => cases h
  | case3 _ _ _ _ _ _ _ ih | case5 _ _ _ _ _ ih | case8 _ _ _ _ _ _ ih =>
    exact ih (pushUnit_eq_error h)

lemma scanString_append {s r k : PyStr} (h : scanString s = .ok (k, r)) :
    r.length < s.length ∧ ∀ q, scanString (s ++ q) = .ok (k, r ++ q) := by
  rw [scanString] at h
  split at h
  · next us r' hus =>
    obtain ⟨rfl, rfl⟩ := Prod.mk.inj (Except.ok.inj h)
    obtain ⟨hlen, happ⟩ := scanUnits_append hus
    exact ⟨hlen, fun q => by rw [scanString, happ q]⟩
  · cases h

lemma scanString_error {s : PyStr} {e : StdExc} (h : scanString s = .error e) :
    e = .jsonDecodeError := by
  rw [scanString] at h
  split at h
  · cases h
  · next hus =>
    obtain rfl := Except.error.inj h
    exact scanUnits_error hus

/-! ## Numbers -/

lemma scanNat_parts {s p r : PyStr} (h : scanNat s = some (p, r)) : s = p ++ r ∧ NatLit p := by
  cases s with
  | nil => cases h
  | cons x t =>
    rw [scanNat] at h
    split_ifs at h with h0 hd
    · obtain ⟨rfl, rfl⟩ := Prod.mk.inj (Option.some.inj h)
      exact ⟨rfl, Or.inl (by rw [h0])⟩
    · obtain ⟨rfl, rfl⟩ := Prod.mk.inj (Option.some.inj h)
      cases x with
      | surrogate k => cases hd
      | scalar c =>
        refine ⟨by rw [List.cons_append, List.takeWhile_append_dropWhile],
          Or.inr ⟨c, _, rfl, hd, fun hc => h0 (by rw [hc]), fun x hx => ?_⟩⟩
        exact List.mem_takeWhile_imp hx

lemma scanInt_parts {s p r : PyStr} (h : scanInt s = some (p, r)) : s = p ++ r ∧ IntLit p := by
  rw [scanInt.eq_def] at h
  split at h
  · next t =>
    obtain ⟨⟨p', r'⟩, hnat, heq⟩ := Option.map_eq_some_iff.mp h
    obtain ⟨rfl, rfl⟩ := Prod.mk.inj heq
    obtain ⟨rfl, hlit⟩ := scanNat_parts hnat
    exact ⟨rfl, Or.inr ⟨p', rfl, hlit⟩⟩
  · obtain ⟨hs, hlit⟩ := scanNat_parts h
    exact ⟨hs, Or.inl hlit⟩

lemma scanFrac_parts (s : PyStr) : s = (scanFrac s).1 ++ (scanFrac s).2 ∧ FracLit (scanFrac s).1 := by
  fun_cases scanFrac s with
  | case1 x r hx =>
    refine ⟨?_, Or.inr ⟨x, _, rfl, hx, fun y hy => List.mem_takeWhile_imp hy⟩⟩
    simp only [List.cons_append, List.takeWhile_append_dropWhile]
  | case2 x r hx => exact ⟨rfl, Or.inl rfl⟩
  | case3 => exact ⟨rfl, Or.inl rfl⟩

lemma scanSign_parts (s : PyStr) : s = (scanSign s).1 ++ (scanSign s).2 ∧
    ((scanSign s).1 = [] ∨ (scanSign s).1 = [.scalar '+'] ∨ (scanSign s).1 = [.scalar '-']) := by
  fun_cases scanSign s with
  | case1 r => exact ⟨rfl, Or.inr (Or.inl rfl)⟩
  | case2 r => exact ⟨rfl, Or.inr (Or.inr rfl)⟩
  | case3 => exact ⟨rfl, Or.inl rfl⟩

lemma scanExp_parts (s : PyStr) : s = (scanExp s).1 ++ (scanExp s).2 ∧ ExpLit (scanExp s).1 := by
  fun_cases scanExp s with
  | case1 => exact ⟨rfl, Or.inl rfl⟩
  | case2 e r he hsign => exact ⟨rfl, Or.inl rfl⟩
  | case3 e r he x r' hsign hx =>
    obtain ⟨hs, hsgn⟩ := scanSign_parts r
    rw [hsign] at hs
    refine ⟨?_, ?_⟩
    · simp only [List.cons_append, List.append_assoc, List.takeWhile_append_dropWhile, ← hs]
    · have he' : ∃ c, e = .scalar c ∧ (c = 'e' ∨ c = 'E') := by
        rcases he with rfl | rfl
        · exact ⟨'e', rfl, Or.inl rfl⟩
        · exact ⟨'E', rfl, Or.inr rfl⟩
      obtain ⟨c, rfl, hc⟩ := he'
      exact Or.inr ⟨c, _, x, _, rfl, hc, hsgn, hx, fun y hy => List.mem_takeWhile_imp hy⟩
  | case4 e r he x r' hsign hx => exact ⟨rfl, Or.inl rfl⟩
  | case5 e r he => exact ⟨rfl, Or.inl rfl⟩

/-- A constant, a number, or a mistake. -/
lemma scanScalar_cases (s : PyStr) :
    (∃ p ∈ keywords F, ∃ r, s = p.1 ++ r ∧ scanScalar s = .ok (p.2, r)) ∨
      (∃ ip t, scanInt s = some (ip, t) ∧ scanScalar (F := F) s =
        (numberOf ip (scanFrac t).1 (scanExp (scanFrac t).2).1).map
          fun v => (v, (scanExp (scanFrac t).2).2)) ∨
      scanScalar (F := F) s = .error .jsonDecodeError := by
  rw [scanScalar]
  cases hfind : (keywords F).find? fun p => p.1.isPrefixOf s with
  | some p =>
    have hpre := List.find?_some hfind
    obtain ⟨r, rfl⟩ := List.isPrefixOf_iff_prefix.mp hpre
    exact Or.inl ⟨p, List.mem_of_find?_eq_some hfind, r, rfl, by simp⟩
  | none =>
    cases hint : scanInt s with
    | none => exact Or.inr (Or.inr (by simp [scanNumber, hint]))
    | some p => exact Or.inr (Or.inl ⟨p.1, p.2, rfl, by simp [scanNumber, hint]⟩)

lemma numberOf_error {ip fp ep : PyStr} {e : StdExc} (h : numberOf (F := F) ip fp ep = .error e) :
    e = .valueError ∧ fp = [] ∧ ep = [] ∧
      ∃ limit ∈ JsonRuntime.digitLimit F, limit < (unsigned ip).length := by
  rw [numberOf] at h
  split at h
  · next hparts =>
    split at h
    · cases h
    · next hall =>
      refine ⟨(Except.error.inj h).symm, hparts.1, hparts.2, ?_⟩
      cases hlimit : JsonRuntime.digitLimit F with
      | none => simp [hlimit] at hall
      | some limit => exact ⟨limit, rfl, by simpa [hlimit] using hall⟩
  · split at h <;> cases h

lemma Stops.append {r : PyStr} (h : Stops r) (hne : r ≠ []) (q : PyStr) : Stops (r ++ q) := by
  obtain ⟨x, t, rfl⟩ := List.exists_cons_of_ne_nil hne
  exact h

/-- What follows a constant or a number does not matter once it has stopped. -/
lemma scanScalar_append {s r : PyStr} {v : Json F} (h : scanScalar s = .ok (v, r)) :
    r.length < s.length ∧
      (r ≠ [] → Stops r → ∀ q, scanScalar (s ++ q) = .ok (v, r ++ q)) := by
  rcases scanScalar_cases (F := F) s with ⟨p, hp, t, rfl, hok⟩ | ⟨ip, t, hint, hnum⟩ | herr
  · obtain ⟨rfl, rfl⟩ := Prod.mk.inj (Except.ok.inj (hok.symm.trans h))
    obtain ⟨c, u, hc, -⟩ := keywords_head p hp
    refine ⟨by simp [hc], fun _ _ q => ?_⟩
    rw [scanScalar, List.append_assoc, find?_keyword hp]
    simp
  · rw [hnum] at h
    cases hv : numberOf (F := F) ip (scanFrac t).1 (scanExp (scanFrac t).2).1 with
    | error e => rw [hv] at h; cases h
    | ok w =>
      rw [hv] at h
      obtain ⟨rfl, hr⟩ := Prod.mk.inj (Except.ok.inj h)
      obtain ⟨hs, hi⟩ := scanInt_parts hint
      obtain ⟨ht, hf⟩ := scanFrac_parts t
      obtain ⟨hu, he⟩ := scanExp_parts (scanFrac t).2
      have hparts : s = ip ++ ((scanFrac t).1 ++ (scanExp (scanFrac t).2).1) ++ r := by
        rw [hs, List.append_assoc, List.append_assoc, ← hr, ← hu, ← ht]
      obtain ⟨c, w, hc, -⟩ := intLit_head hi
      refine ⟨?_, fun hne hstops q => ?_⟩
      · rw [hparts, hc]
        simp only [List.length_append, List.length_cons]
        omega
      · rw [hparts, List.append_assoc]
        exact scanScalar_number hi hf he (hstops.append hne q) hv
  · rw [herr] at h
    cases h

/-! ## The steps of the decoder -/

/-- A text that starts with a bracket. -/
def Bracketed (s : PyStr) : Prop := ∃ r, s = .scalar '[' :: r ∨ s = .scalar '{' :: r

section Steps

variable {d fuel : ℕ} {r s t : PyStr}

lemma scanValue_quote : scanValue (F := F) d (.scalar '"' :: t) (fuel + 1) =
    (scanString t).map fun p => (.str p.1, p.2) := rfl

lemma scanValue_deep (h : Bracketed s) :
    scanValue (F := F) 0 s (fuel + 1) = .error .recursionError := by
  obtain ⟨r, rfl | rfl⟩ := h <;> rfl

lemma scanValue_arr_nil (h : skipWs t = .scalar ']' :: r) :
    scanValue (F := F) (d + 1) (.scalar '[' :: t) (fuel + 1) = .ok (.arr [], r) := by
  simp only [scanValue, h]

lemma scanValue_arr (h : ∀ r, skipWs t ≠ .scalar ']' :: r) :
    scanValue (F := F) (d + 1) (.scalar '[' :: t) (fuel + 1) =
      (scanItems d (skipWs t) fuel).map fun p => (.arr p.1, p.2) := by
  rw [scanValue]
  split
  · next r' hr => exact absurd hr (h r')
  · rfl

lemma scanValue_obj_nil (h : skipWs t = .scalar '}' :: r) :
    scanValue (F := F) (d + 1) (.scalar '{' :: t) (fuel + 1) = .ok (.obj [], r) := by
  simp only [scanValue, h]

lemma scanValue_obj (h : ∀ r, skipWs t ≠ .scalar '}' :: r) :
    scanValue (F := F) (d + 1) (.scalar '{' :: t) (fuel + 1) =
      (scanMembers d (skipWs t) fuel).map fun p => (.obj (Dict.ofList p.1).items, p.2) := by
  rw [scanValue]
  split
  · next r' hr => exact absurd hr (h r')
  · rfl

/-- A text that starts with neither a quotation mark nor a bracket. -/
def Plain (s : PyStr) : Prop :=
  ∀ x ∈ s.head?, x ≠ .scalar '"' ∧ x ≠ .scalar '[' ∧ x ≠ .scalar '{'

lemma scanValue_plain (h : Plain s) : scanValue (F := F) d s (fuel + 1) = scanScalar s := by
  cases s with
  | nil => rfl
  | cons x t =>
    obtain ⟨hq, ha, ho⟩ := h x rfl
    exact scanValue_scalar hq ha ho d fuel

/-- How the text of a value starts. -/
lemma start_cases (s : PyStr) : (∃ t, s = .scalar '"' :: t) ∨ Bracketed s ∨ Plain s := by
  cases s with
  | nil => exact Or.inr (Or.inr fun x hx => nomatch hx)
  | cons x t =>
    by_cases hq : x = .scalar '"'
    · exact Or.inl ⟨t, by rw [hq]⟩
    by_cases ha : x = .scalar '['
    · exact Or.inr (Or.inl ⟨t, Or.inl (by rw [ha])⟩)
    by_cases ho : x = .scalar '{'
    · exact Or.inr (Or.inl ⟨t, Or.inr (by rw [ho])⟩)
    · exact Or.inr (Or.inr fun y hy => by
        obtain rfl : x = y := by simpa using hy
        exact ⟨hq, ha, ho⟩)

lemma closed_or_not (c : PyChar) (t : PyStr) :
    (∃ r, skipWs t = c :: r) ∨ ∀ r, skipWs t ≠ c :: r := by
  by_cases h : ∃ r, skipWs t = c :: r
  · exact Or.inl h
  · exact Or.inr fun r hr => h ⟨r, hr⟩

variable {v : Json F} {k : PyStr}

lemma scanItems_error {e : StdExc} (h : scanValue (F := F) d s fuel = .error e) :
    scanItems (F := F) d s (fuel + 1) = .error e := by
  rw [scanItems, h]

lemma scanItems_close (h : scanValue d s fuel = .ok (v, r)) (hr : skipWs r = .scalar ']' :: t) :
    scanItems d s (fuel + 1) = .ok ([v], t) := by
  simp only [scanItems, h, hr]

lemma scanItems_comma (h : scanValue d s fuel = .ok (v, r)) (hr : skipWs r = .scalar ',' :: t) :
    scanItems d s (fuel + 1) = (scanItems d (skipWs t) fuel).map fun p => (v :: p.1, p.2) := by
  simp only [scanItems, h, hr]

lemma scanItems_other (h : scanValue d s fuel = .ok (v, r)) (hclose : ∀ t, skipWs r ≠ .scalar ']' :: t)
    (hcomma : ∀ t, skipWs r ≠ .scalar ',' :: t) :
    scanItems (F := F) d s (fuel + 1) = .error .jsonDecodeError := by
  rw [scanItems, h]
  dsimp only
  split
  · next t hr => exact absurd hr (hclose t)
  · next t hr => exact absurd hr (hcomma t)
  · rfl

/-- The key of a member, and the text of its value. -/
def scanKey (s : PyStr) : Except StdExc (PyStr × PyStr) :=
  match s with
  | .scalar '"' :: r => match scanString r with
    | .error e => .error e
    | .ok (k, r) => match skipWs r with
      | .scalar ':' :: r => .ok (k, skipWs r)
      | _ => .error .jsonDecodeError
  | _ => .error .jsonDecodeError

lemma scanKey_eq_ok (h : scanKey s = .ok (k, t)) :
    ∃ u w w', s = .scalar '"' :: u ∧ scanString u = .ok (k, w) ∧ skipWs w = .scalar ':' :: w' ∧
      t = skipWs w' := by
  rw [scanKey.eq_def] at h
  split at h
  · next u =>
    split at h
    · cases h
    · next k' w hu =>
      split at h
      · next w' hw =>
        obtain ⟨rfl, rfl⟩ := Prod.mk.inj (Except.ok.inj h)
        exact ⟨u, w, w', rfl, hu, hw, rfl⟩
      · cases h
  · cases h

lemma scanMembers_key_error {e : StdExc} (h : scanKey s = .error e) :
    scanMembers (F := F) d s (fuel + 1) = .error .jsonDecodeError := by
  by_cases hs : ∃ u, s = .scalar '"' :: u
  · obtain ⟨u, rfl⟩ := hs
    cases hu : scanString u with
    | error e' => simp only [scanMembers, hu, scanString_error hu]
    | ok p =>
      obtain ⟨k', w⟩ := p
      rcases closed_or_not (.scalar ':') w with ⟨w', hw⟩ | hopen
      · simp only [scanKey, hu, hw, reduceCtorEq] at h
      · -- the equation that applies is picked by `hopen`
        simp only [scanMembers, hu]
  · rw [scanMembers]
    exact fun u hu => hs ⟨u, hu⟩

section Member

variable (hk : scanKey s = .ok (k, t))

include hk

lemma scanMembers_value_error {e : StdExc} (h : scanValue (F := F) d t fuel = .error e) :
    scanMembers (F := F) d s (fuel + 1) = .error e := by
  obtain ⟨u, w, w', rfl, hu, hw, rfl⟩ := scanKey_eq_ok hk
  simp only [scanMembers, hu, hw, h]

variable (h : scanValue d t fuel = .ok (v, r))

include h

lemma scanMembers_close {r' : PyStr} (hr : skipWs r = .scalar '}' :: r') :
    scanMembers d s (fuel + 1) = .ok ([(k, v)], r') := by
  obtain ⟨u, w, w', rfl, hu, hw, rfl⟩ := scanKey_eq_ok hk
  simp only [scanMembers, hu, hw, h, hr]

lemma scanMembers_comma {r' : PyStr} (hr : skipWs r = .scalar ',' :: r') :
    scanMembers d s (fuel + 1) =
      (scanMembers d (skipWs r') fuel).map fun p => ((k, v) :: p.1, p.2) := by
  obtain ⟨u, w, w', rfl, hu, hw, rfl⟩ := scanKey_eq_ok hk
  simp only [scanMembers, hu, hw, h, hr]

lemma scanMembers_other (hclose : ∀ t, skipWs r ≠ .scalar '}' :: t)
    (hcomma : ∀ t, skipWs r ≠ .scalar ',' :: t) :
    scanMembers (F := F) d s (fuel + 1) = .error .jsonDecodeError := by
  obtain ⟨u, w, w', rfl, hu, hw, rfl⟩ := scanKey_eq_ok hk
  simp only [scanMembers, hu, hw, h]

end Member

end Steps

/-! ## What follows does not matter -/

lemma skipWs_append_of_cons {r t : PyStr} {x : PyChar} (h : skipWs r = x :: t) (q : PyStr) :
    skipWs (r ++ q) = x :: (t ++ q) := by
  rw [skipWs] at h
  rw [skipWs, List.dropWhile_append, h]
  rfl

lemma length_skipWs_le (r : PyStr) : (skipWs r).length ≤ r.length :=
  (List.dropWhile_suffix _).length_le

lemma length_lt_of_skipWs {r t : PyStr} {x : PyChar} (h : skipWs r = x :: t) :
    t.length < r.length := by
  have hle := length_skipWs_le r
  rw [h, List.length_cons] at hle
  omega

/-- Whitespace and the separators stop a number. -/
lemma stops_of_skipWs {r t : PyStr} {c : Char} (hc : c ∈ [']', '}', ','])
    (h : skipWs r = .scalar c :: t) : r ≠ [] ∧ Stops r := by
  cases r with
  | nil => cases h
  | cons x u =>
    refine ⟨by simp, fun y hy => ?_⟩
    obtain rfl : x = y := by simpa using hy
    rw [skipWs, List.dropWhile_cons] at h
    split at h
    · next hws =>
      simp only [isWs, Bool.or_eq_true, decide_eq_true_eq] at hws
      rcases hws with ((rfl | rfl) | rfl) | rfl <;> decide
    · obtain rfl := (List.cons.inj h).1
      fin_cases hc <;> decide

/-- The value has ended where the text `r` after it begins: more text, or more fuel, changes nothing. -/
structure Extends (F : Type) [JsonRuntime F] (fuel : ℕ) : Prop where
  value : ∀ {d s r} {v : Json F}, scanValue d s fuel = .ok (v, r) → r.length < s.length ∧
    ∀ q fuel', fuel ≤ fuel' → (q = [] ∨ Bracketed s ∨ r ≠ [] ∧ Stops r) →
      scanValue d (s ++ q) fuel' = .ok (v, r ++ q)
  items : ∀ {d s r} {l : List (Json F)}, scanItems d s fuel = .ok (l, r) → r.length < s.length ∧
    ∀ q fuel', fuel ≤ fuel' → scanItems d (s ++ q) fuel' = .ok (l, r ++ q)
  members : ∀ {d s r} {l : List (PyStr × Json F)}, scanMembers d s fuel = .ok (l, r) →
    r.length < s.length ∧
    ∀ q fuel', fuel ≤ fuel' → scanMembers d (s ++ q) fuel' = .ok (l, r ++ q)

lemma map_eq_ok {α β : Type} {f : α → β} {e : Except StdExc α} {b : β}
    (h : e.map f = .ok b) : ∃ a, e = .ok a ∧ f a = b := by
  cases e with
  | error e => cases h
  | ok a => exact ⟨a, rfl, Except.ok.inj h⟩

lemma length_of_scanKey {s k t : PyStr} (h : scanKey s = .ok (k, t)) : t.length < s.length := by
  obtain ⟨u, w, w', rfl, hu, hw, rfl⟩ := scanKey_eq_ok h
  have hlen := (scanString_append hu).1
  have hlen' := length_lt_of_skipWs hw
  have hle := length_skipWs_le w'
  rw [List.length_cons]
  omega

/-- A bracket that does not close at once does not close at once in a longer text. -/
lemma open_append {t : PyStr} {c : PyChar} (hopen : ∀ w, skipWs t ≠ c :: w)
    (hne : 0 < (skipWs t).length) (q : PyStr) :
    skipWs (t ++ q) = skipWs t ++ q ∧ ∀ w, skipWs (t ++ q) ≠ c :: w := by
  obtain ⟨x, u, hx⟩ := List.exists_cons_of_length_pos hne
  have hskip : skipWs (t ++ q) = x :: (u ++ q) := skipWs_append_of_cons hx q
  refine ⟨by rw [hskip, hx, List.cons_append], fun w hw => ?_⟩
  rw [hskip] at hw
  exact hopen u (by rw [hx, (List.cons.inj hw).1])

lemma exists_succ {fuel fuel' : ℕ} (h : fuel + 1 ≤ fuel') : ∃ f, fuel' = f + 1 ∧ fuel ≤ f :=
  ⟨fuel' - 1, by omega, by omega⟩

namespace Extends

variable {fuel d : ℕ} {s r : PyStr}

/-- A value in brackets ends with its closing bracket `c`; `inner` reads what is between them. -/
lemma bracket_succ {α : Type} {b c : PyChar} {v₀ : Json F} {f : α → Json F}
    {inner : PyStr → ℕ → Except StdExc (α × PyStr)}
    (hnil : ∀ {fuel r t}, skipWs t = c :: r → scanValue (d + 1) (b :: t) (fuel + 1) = .ok (v₀, r))
    (hcons : ∀ {fuel t}, (∀ r, skipWs t ≠ c :: r) → scanValue (d + 1) (b :: t) (fuel + 1) =
      (inner (skipWs t) fuel).map fun p => (f p.1, p.2))
    (hinner : ∀ {s r a}, inner s fuel = .ok (a, r) → r.length < s.length ∧
      ∀ q fuel', fuel ≤ fuel' → inner (s ++ q) fuel' = .ok (a, r ++ q))
    {t : PyStr} {v : Json F} (hv : scanValue (d + 1) (b :: t) (fuel + 1) = .ok (v, r)) :
    r.length < (b :: t).length ∧ ∀ q fuel', fuel + 1 ≤ fuel' →
      scanValue (d + 1) (b :: t ++ q) fuel' = .ok (v, r ++ q) := by
  rcases closed_or_not c t with ⟨r', hr'⟩ | hopen
  · rw [hnil hr'] at hv
    obtain ⟨rfl, rfl⟩ := Prod.mk.inj (Except.ok.inj hv)
    refine ⟨(length_lt_of_skipWs hr').trans (Nat.lt_succ_self _), fun q fuel' hf => ?_⟩
    obtain ⟨fuel', rfl, -⟩ := exists_succ hf
    exact hnil (skipWs_append_of_cons hr' q)
  · rw [hcons hopen] at hv
    obtain ⟨⟨a, r'⟩, ha, heq⟩ := map_eq_ok hv
    obtain ⟨rfl, rfl⟩ := Prod.mk.inj heq
    obtain ⟨hlen, happ⟩ := hinner ha
    refine ⟨(hlen.trans_le (length_skipWs_le t)).trans (Nat.lt_succ_self _), fun q fuel' hf => ?_⟩
    obtain ⟨fuel', rfl, hle'⟩ := exists_succ hf
    obtain ⟨hskip, hopen'⟩ := open_append hopen (by omega) q
    rw [List.cons_append, hcons hopen', hskip, happ q fuel' hle']
    rfl

lemma value_succ (h : Extends F fuel) {v : Json F} (hv : scanValue d s (fuel + 1) = .ok (v, r)) :
    r.length < s.length ∧
    ∀ q fuel', fuel + 1 ≤ fuel' → (q = [] ∨ Bracketed s ∨ r ≠ [] ∧ Stops r) →
      scanValue d (s ++ q) fuel' = .ok (v, r ++ q) := by
  rcases start_cases s with ⟨t, rfl⟩ | ⟨t, rfl | rfl⟩ | hplain
  · rw [scanValue_quote] at hv
    obtain ⟨⟨k, r'⟩, hk, heq⟩ := map_eq_ok hv
    obtain ⟨rfl, rfl⟩ := Prod.mk.inj heq
    obtain ⟨hlen, happ⟩ := scanString_append hk
    refine ⟨hlen.trans (Nat.lt_succ_self _), fun q fuel' hf _ => ?_⟩
    obtain ⟨f, rfl, -⟩ := exists_succ hf
    rw [List.cons_append, scanValue_quote, happ q]
    rfl
  · cases d with
    | zero => rw [scanValue_deep ⟨t, Or.inl rfl⟩] at hv; cases hv
    | succ d =>
      obtain ⟨hlen, happ⟩ := bracket_succ scanValue_arr_nil scanValue_arr h.items hv
      exact ⟨hlen, fun q fuel' hf _ => happ q fuel' hf⟩
  · cases d with
    | zero => rw [scanValue_deep ⟨t, Or.inr rfl⟩] at hv; cases hv
    | succ d =>
      obtain ⟨hlen, happ⟩ := bracket_succ (f := fun l => .obj (Dict.ofList l).items)
        scanValue_obj_nil scanValue_obj h.members hv
      exact ⟨hlen, fun q fuel' hf _ => happ q fuel' hf⟩
  · rw [scanValue_plain hplain] at hv
    obtain ⟨hlen, happ⟩ := scanScalar_append hv
    refine ⟨hlen, fun q fuel' hf hq => ?_⟩
    obtain ⟨f, rfl, -⟩ := exists_succ hf
    -- a plain value does not start with a bracket, so it is a number or a keyword that has ended
    rcases hq with rfl | ⟨t, rfl | rfl⟩ | ⟨hne, hstops⟩
    · rw [List.append_nil, List.append_nil, scanValue_plain hplain, hv]
    · exact absurd rfl (hplain _ rfl).2.1
    · exact absurd rfl (hplain _ rfl).2.2
    · have hplain' : Plain (s ++ q) := by
        obtain ⟨x, t, rfl⟩ := List.exists_cons_of_length_pos (Nat.zero_lt_of_lt hlen)
        exact hplain
      rw [scanValue_plain hplain', happ hne hstops q]

/-- A value that is followed by a separator ends where it does in any text. -/
lemma value_before (h : Extends F fuel) {v : Json F} (hv : scanValue d s fuel = .ok (v, r))
    {c : Char} (hc : c ∈ [']', '}', ',']) {t : PyStr} (hr : skipWs r = .scalar c :: t) :
    t.length < s.length ∧ ∀ q fuel', fuel ≤ fuel' →
      scanValue d (s ++ q) fuel' = .ok (v, r ++ q) ∧ skipWs (r ++ q) = .scalar c :: (t ++ q) := by
  obtain ⟨hlen, happ⟩ := h.value hv
  exact ⟨(length_lt_of_skipWs hr).trans hlen, fun q fuel' hf =>
    ⟨happ q fuel' hf (Or.inr (Or.inr (stops_of_skipWs hc hr))), skipWs_append_of_cons hr q⟩⟩

lemma items_succ (h : Extends F fuel) {l : List (Json F)}
    (hl : scanItems d s (fuel + 1) = .ok (l, r)) :
    r.length < s.length ∧
    ∀ q fuel', fuel + 1 ≤ fuel' → scanItems d (s ++ q) fuel' = .ok (l, r ++ q) := by
  cases hv : scanValue (F := F) d s fuel with
  | error e => rw [scanItems_error hv] at hl; cases hl
  | ok p =>
    obtain ⟨v, u⟩ := p
    rcases closed_or_not (.scalar ']') u with ⟨t, ht⟩ | hclose
    · rw [scanItems_close hv ht] at hl
      obtain ⟨rfl, rfl⟩ := Prod.mk.inj (Except.ok.inj hl)
      obtain ⟨hlen, happ⟩ := h.value_before hv (by decide) ht
      refine ⟨hlen, fun q fuel' hf => ?_⟩
      obtain ⟨f, rfl, hle'⟩ := exists_succ hf
      obtain ⟨hval, hskip⟩ := happ q f hle'
      exact scanItems_close hval hskip
    rcases closed_or_not (.scalar ',') u with ⟨t, ht⟩ | hcomma
    · rw [scanItems_comma hv ht] at hl
      obtain ⟨⟨l', r'⟩, hl', heq⟩ := map_eq_ok hl
      obtain ⟨rfl, rfl⟩ := Prod.mk.inj heq
      obtain ⟨hlen, happ⟩ := h.value_before hv (by decide) ht
      obtain ⟨hlen', happ'⟩ := h.items hl'
      -- the next item is not empty, so the whitespace before it ends within `t`
      have hle := length_skipWs_le t
      refine ⟨by dsimp only; omega, fun q fuel' hf => ?_⟩
      obtain ⟨f, rfl, hle'⟩ := exists_succ hf
      obtain ⟨hval, hskip⟩ := happ q f hle'
      obtain ⟨x, w, hx⟩ := List.exists_cons_of_length_pos (by omega : 0 < (skipWs t).length)
      rw [scanItems_comma hval hskip, skipWs_append_of_cons hx q, ← List.cons_append, ← hx,
        happ' q f hle']
      rfl
    · rw [scanItems_other hv hclose hcomma] at hl
      cases hl

lemma key_append {k t : PyStr} (h : scanKey s = .ok (k, t)) (hne : 0 < t.length) (q : PyStr) :
    scanKey (s ++ q) = .ok (k, t ++ q) := by
  obtain ⟨u, w, w', rfl, hu, hw, rfl⟩ := scanKey_eq_ok h
  obtain ⟨hlen, happ⟩ := scanString_append hu
  obtain ⟨x, y, hx⟩ := List.exists_cons_of_length_pos hne
  simp only [List.cons_append, scanKey, happ q, skipWs_append_of_cons hw q,
    skipWs_append_of_cons hx q, hx]

lemma members_succ (h : Extends F fuel) {l : List (PyStr × Json F)}
    (hl : scanMembers d s (fuel + 1) = .ok (l, r)) :
    r.length < s.length ∧
    ∀ q fuel', fuel + 1 ≤ fuel' → scanMembers d (s ++ q) fuel' = .ok (l, r ++ q) := by
  cases hk : scanKey s with
  | error e => rw [scanMembers_key_error hk] at hl; cases hl
  | ok p =>
    obtain ⟨k, y⟩ := p
    cases hv : scanValue (F := F) d y fuel with
    | error e => rw [scanMembers_value_error hk hv] at hl; cases hl
    | ok p =>
      obtain ⟨v, u⟩ := p
      have hpos : 0 < y.length := Nat.zero_lt_of_lt (h.value hv).1
      have hklen := length_of_scanKey hk
      have hkapp := key_append hk hpos
      rcases closed_or_not (.scalar '}') u with ⟨t, ht⟩ | hclose
      · rw [scanMembers_close hk hv ht] at hl
        obtain ⟨rfl, rfl⟩ := Prod.mk.inj (Except.ok.inj hl)
        obtain ⟨hlen, happ⟩ := h.value_before hv (by decide) ht
        refine ⟨hlen.trans hklen, fun q fuel' hf => ?_⟩
        obtain ⟨f, rfl, hle'⟩ := exists_succ hf
        obtain ⟨hval, hskip⟩ := happ q f hle'
        exact scanMembers_close (hkapp q) hval hskip
      rcases closed_or_not (.scalar ',') u with ⟨t, ht⟩ | hcomma
      · rw [scanMembers_comma hk hv ht] at hl
        obtain ⟨⟨l', r'⟩, hl', heq⟩ := map_eq_ok hl
        obtain ⟨rfl, rfl⟩ := Prod.mk.inj heq
        obtain ⟨hlen, happ⟩ := h.value_before hv (by decide) ht
        obtain ⟨hlen', happ'⟩ := h.members hl'
        have hle := length_skipWs_le t
        refine ⟨by dsimp only; omega, fun q fuel' hf => ?_⟩
        obtain ⟨f, rfl, hle'⟩ := exists_succ hf
        obtain ⟨hval, hskip⟩ := happ q f hle'
        obtain ⟨x, w, hx⟩ := List.exists_cons_of_length_pos (by omega : 0 < (skipWs t).length)
        rw [scanMembers_comma (hkapp q) hval hskip, skipWs_append_of_cons hx q, ← List.cons_append,
          ← hx, happ' q f hle']
        rfl
      · rw [scanMembers_other hk hv hclose hcomma] at hl
        cases hl

end Extends

/-- **What the decoder has read does not depend on the text after it, nor on more fuel.** -/
theorem extends_all (fuel : ℕ) : Extends F fuel := by
  induction fuel with
  | zero => exact ⟨(fun h => nomatch h), (fun h => nomatch h), (fun h => nomatch h)⟩
  | succ fuel ih => exact ⟨ih.value_succ, ih.items_succ, ih.members_succ⟩

section Mono

variable {d fuel fuel' : ℕ} {s r : PyStr}

lemma scanValue_mono {v : Json F} (h : scanValue d s fuel = .ok (v, r)) (hf : fuel ≤ fuel') :
    scanValue d s fuel' = .ok (v, r) := by
  have hmore := ((extends_all fuel).value h).2 [] fuel' hf (Or.inl rfl)
  rwa [List.append_nil, List.append_nil] at hmore

lemma scanItems_mono {l : List (Json F)} (h : scanItems d s fuel = .ok (l, r)) (hf : fuel ≤ fuel') :
    scanItems d s fuel' = .ok (l, r) := by
  have hmore := ((extends_all fuel).items h).2 [] fuel' hf
  rwa [List.append_nil, List.append_nil] at hmore

lemma scanMembers_mono {l : List (PyStr × Json F)} (h : scanMembers d s fuel = .ok (l, r))
    (hf : fuel ≤ fuel') : scanMembers d s fuel' = .ok (l, r) := by
  have hmore := ((extends_all fuel).members h).2 [] fuel' hf
  rwa [List.append_nil, List.append_nil] at hmore

end Mono

/-! ## The fuel is enough -/

/-- With two units of fuel for each character, more fuel changes nothing. -/
structure Stable (F : Type) [JsonRuntime F] (fuel : ℕ) : Prop where
  value : ∀ {d s}, 2 * s.length + 1 ≤ fuel →
    scanValue (F := F) d s (fuel + 1) = scanValue d s fuel
  items : ∀ {d s}, 2 * s.length + 2 ≤ fuel →
    scanItems (F := F) d s (fuel + 1) = scanItems d s fuel
  members : ∀ {d s}, 2 * s.length + 2 ≤ fuel →
    scanMembers (F := F) d s (fuel + 1) = scanMembers d s fuel

namespace Stable

variable {fuel d : ℕ} {s : PyStr}

lemma value_succ (h : Stable F fuel) (hf : 2 * s.length + 1 ≤ fuel + 1) :
    scanValue (F := F) d s (fuel + 1 + 1) = scanValue d s (fuel + 1) := by
  rcases start_cases s with ⟨t, rfl⟩ | ⟨t, rfl | rfl⟩ | hplain
  · rfl
  · have hle := length_skipWs_le t
    rw [List.length_cons] at hf
    cases d with
    | zero => rfl
    | succ d =>
      rcases closed_or_not (.scalar ']') t with ⟨r', hr'⟩ | hopen
      · rw [scanValue_arr_nil hr', scanValue_arr_nil hr']
      · rw [scanValue_arr hopen, scanValue_arr hopen, h.items (by omega)]
  · have hle := length_skipWs_le t
    rw [List.length_cons] at hf
    cases d with
    | zero => rfl
    | succ d =>
      rcases closed_or_not (.scalar '}') t with ⟨r', hr'⟩ | hopen
      · rw [scanValue_obj_nil hr', scanValue_obj_nil hr']
      · rw [scanValue_obj hopen, scanValue_obj hopen, h.members (by omega)]
  · rw [scanValue_plain hplain, scanValue_plain hplain]

lemma items_succ (h : Stable F fuel) (hf : 2 * s.length + 2 ≤ fuel + 1) :
    scanItems (F := F) d s (fuel + 1 + 1) = scanItems d s (fuel + 1) := by
  have hstep : scanValue (F := F) d s (fuel + 1) = scanValue d s fuel := h.value (by omega)
  cases hv : scanValue (F := F) d s fuel with
  | error e => rw [scanItems_error hv, scanItems_error (hstep.trans hv)]
  | ok p =>
    obtain ⟨v, u⟩ := p
    rcases closed_or_not (.scalar ']') u with ⟨t, ht⟩ | hclose
    · rw [scanItems_close hv ht, scanItems_close (hstep.trans hv) ht]
    rcases closed_or_not (.scalar ',') u with ⟨t, ht⟩ | hcomma
    · have hlen := ((extends_all fuel).value_before hv (by decide) ht).1
      have hle := length_skipWs_le t
      rw [scanItems_comma hv ht, scanItems_comma (hstep.trans hv) ht, h.items (by omega)]
    · rw [scanItems_other hv hclose hcomma, scanItems_other (hstep.trans hv) hclose hcomma]

lemma members_succ (h : Stable F fuel) (hf : 2 * s.length + 2 ≤ fuel + 1) :
    scanMembers (F := F) d s (fuel + 1 + 1) = scanMembers d s (fuel + 1) := by
  cases hk : scanKey s with
  | error e => rw [scanMembers_key_error hk, scanMembers_key_error hk]
  | ok p =>
    obtain ⟨k, y⟩ := p
    have hklen := length_of_scanKey hk
    have hstep : scanValue (F := F) d y (fuel + 1) = scanValue d y fuel := h.value (by omega)
    cases hv : scanValue (F := F) d y fuel with
    | error e => rw [scanMembers_value_error hk hv, scanMembers_value_error hk (hstep.trans hv)]
    | ok p =>
      obtain ⟨v, u⟩ := p
      rcases closed_or_not (.scalar '}') u with ⟨t, ht⟩ | hclose
      · rw [scanMembers_close hk hv ht, scanMembers_close hk (hstep.trans hv) ht]
      rcases closed_or_not (.scalar ',') u with ⟨t, ht⟩ | hcomma
      · have hlen := ((extends_all fuel).value_before hv (by decide) ht).1
        have hle := length_skipWs_le t
        rw [scanMembers_comma hk hv ht, scanMembers_comma hk (hstep.trans hv) ht,
          h.members (by omega)]
      · rw [scanMembers_other hk hv hclose hcomma,
          scanMembers_other hk (hstep.trans hv) hclose hcomma]

end Stable

theorem stable_all (fuel : ℕ) : Stable F fuel := by
  induction fuel with
  | zero => exact ⟨by omega, by omega, by omega⟩
  | succ fuel ih => exact ⟨ih.value_succ, ih.items_succ, ih.members_succ⟩

section Enough

variable {d fuel : ℕ} {s r : PyStr}

/-- **The decoder never runs out of the fuel that `loads` starts with.** -/
theorem scanValue_of_le (hf : 2 * s.length + 1 ≤ fuel) :
    scanValue (F := F) d s fuel = scanValue d s (2 * s.length + 1) := by
  induction fuel, hf using Nat.le_induction with
  | base => rfl
  | succ n hn ih => rw [(stable_all n).value hn, ih]

/-- The value at the start of a text, and the text after it. -/
def Reads (d : ℕ) (s : PyStr) (v : Json F) (r : PyStr) : Prop :=
  scanValue d s (2 * s.length + 1) = .ok (v, r)

lemma reads_of_scanValue {v : Json F} (h : scanValue d s fuel = .ok (v, r)) : Reads d s v r := by
  have hmore := scanValue_mono h (le_max_left fuel (2 * s.length + 1))
  rwa [scanValue_of_le (le_max_right _ _)] at hmore

lemma Reads.scanValue {v : Json F} (h : Reads d s v r) (hf : 2 * s.length + 1 ≤ fuel) :
    Lib.scanValue d s fuel = .ok (v, r) := (scanValue_of_le hf).trans h

/-- A text is read in one way. -/
lemma Reads.unique {v w : Json F} {r' : PyStr} (h : Reads d s v r) (h' : Reads d s w r') :
    v = w ∧ r = r' := Prod.mk.inj (Except.ok.inj (h.symm.trans h'))

/-- More text after a value in brackets is left over. -/
lemma Reads.append {v : Json F} (h : Reads d s v r) (hs : Bracketed s) (q : PyStr) :
    Reads d (s ++ q) v (r ++ q) :=
  reads_of_scanValue (((extends_all _).value h).2 q _ le_rfl (Or.inr (Or.inl hs)))

/-- **After a document in brackets only whitespace may follow.** -/
theorem loads_append {v : Json F} (hs : Bracketed s) (h : loads s = .ok v) (q : PyStr) :
    loads (F := F) (s ++ q) = if skipWs q = [] then .ok v else .error .jsonDecodeError := by
  have hskip : ∀ u, skipWs (s ++ u) = s ++ u := fun u => by
    obtain ⟨t, rfl | rfl⟩ := hs <;> exact skipWs_cons (by decide) _
  have hbom : ∀ u, (s ++ u).head? ≠ some (.scalar '\ufeff') := fun u => by
    obtain ⟨t, rfl | rfl⟩ := hs <;> simp
  have hskip' := hskip []
  have hbom' := hbom []
  rw [List.append_nil] at hskip' hbom'
  rw [loads, if_neg hbom', decodeDocument, hskip'] at h
  rw [loads, if_neg (hbom q), decodeDocument, hskip]
  split at h
  · cases h
  · next w r hw =>
    split_ifs at h with hr
    obtain rfl := Except.ok.inj h
    have hread := ((reads_of_scanValue hw).append hs q).scanValue (Nat.le_succ _)
    -- `s` has only whitespace after its value
    have hrest : skipWs (r ++ q) = skipWs q := skipWs_append (List.dropWhile_eq_nil_iff.mp hr) q
    rw [hread]
    dsimp only
    rw [hrest]

end Enough

end Omkit.Lib
