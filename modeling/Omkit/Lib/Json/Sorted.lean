import Omkit.Lib.Json.Canonical
import Omkit.Lib.Json.RoundTrip

/-!
# Sorting the keys of a value

A value that its text is read back as has no key twice, so sorting its keys gives the same value
in another order, which is read back too.  A value that comes back changed comes back smaller:
what is lost is a character of a string, or a member.
-/

namespace Omkit.Lib

/-! ## Strings that are read back -/

lemma readStr_cons_scalar (a : Bool) (c : Char) (s : PyStr) :
    readStr a (.scalar c :: s) = .scalar c :: readStr a s := by
  rw [readStr, List.flatMap_cons, joinUnits_unitsOf]
  rfl

lemma readStr_false (s : PyStr) : readStr false s = s := by
  induction s with
  | nil => rfl
  | cons x s ih =>
    cases x with
    | scalar c => rw [readStr_cons_scalar, ih]
    | surrogate k => exact (joinUnits_lit _ _).trans (congrArg _ ih)

lemma ofUnit_surrogate (k : Fin 2048) : ofUnit (0xd800 + k) = .surrogate k := by
  have hk := k.isLt
  rw [ofUnit, dif_pos (by omega)]
  exact congrArg PyChar.surrogate (Fin.ext (Nat.add_sub_cancel_left _ _))

lemma isLow_scalar {c : Char} : isLow c.toNat = false := by
  have hc := not_surrogate c
  simp only [isLow, Bool.and_eq_false_iff, decide_eq_false_iff_not]
  omega

/-- An escape is not joined to the next one if that is not the second half of a pair. -/
lemma joinUnits_esc_esc {u v : ℕ} (hv : isLow v = false) (us : List StrUnit) :
    joinUnits (.esc u :: .esc v :: us) = ofUnit u :: joinUnits (.esc v :: us) := by
  rw [joinUnits, hv, Bool.and_false]
  rfl

/-- A scalar value does not begin with the second half of a pair. -/
lemma joinUnits_esc_unitsOf (u : ℕ) (a : Bool) (c : Char) (us : List StrUnit) :
    joinUnits (.esc u :: (unitsOf a (.scalar c) ++ us)) =
      ofUnit u :: joinUnits (unitsOf a (.scalar c) ++ us) := by
  simp only [unitsOf]
  cases shortEscape c with
  | some e => rfl
  | none =>
    simp only
    have hc := toNat_lt c
    split_ifs with h₁ h₂
    · exact joinUnits_esc_esc isLow_scalar us
    · refine joinUnits_esc_esc ?_ _
      simp only [isLow, Bool.and_eq_false_iff, decide_eq_false_iff_not]
      omega
    · rfl

/-- A surrogate is read back on its own, unless the next character makes it half of a pair. -/
lemma readStr_surrogate (k : Fin 2048) (s : PyStr) :
    readStr true (.surrogate k :: s) = .surrogate k :: readStr true s ∨
    ∃ j t c, s = .surrogate j :: t ∧ readStr true (.surrogate k :: s) = c :: readStr true t := by
  cases s with
  | nil => exact Or.inl (congrArg (· :: []) (ofUnit_surrogate k))
  | cons x t =>
    cases x with
    | scalar c =>
      exact Or.inl ((joinUnits_esc_unitsOf _ true c _).trans (by rw [ofUnit_surrogate]; rfl))
    | surrogate j =>
      have hstep : readStr true (.surrogate k :: .surrogate j :: t) =
        joinUnits (.esc (0xd800 + k) :: .esc (0xd800 + j) :: t.flatMap (unitsOf true)) := rfl
      rw [hstep, joinUnits]
      split
      · exact Or.inr ⟨j, t, _, rfl, rfl⟩
      · exact Or.inl (by rw [ofUnit_surrogate]; rfl)

/-- Reading back makes a string shorter, or leaves it as it is. -/
lemma length_readStr (a : Bool) (s : PyStr) :
    readStr a s = s ∨ (readStr a s).length < s.length := by
  cases a with
  | false => exact Or.inl (readStr_false s)
  | true =>
    induction h : s.length using Nat.strong_induction_on generalizing s with
    | _ n ih =>
      subst h
      match s with
      | [] => exact Or.inl rfl
      | .scalar c :: s =>
        rw [readStr_cons_scalar, List.length_cons, List.length_cons]
        rcases ih s.length (by simp) s rfl with h | h
        · exact Or.inl (by rw [h])
        · exact Or.inr (by omega)
      | .surrogate k :: s =>
        rcases readStr_surrogate k s with h | ⟨j, t, c, rfl, h⟩
        · rw [h, List.length_cons, List.length_cons]
          rcases ih s.length (by simp) s rfl with h | h
          · exact Or.inl (by rw [h])
          · exact Or.inr (by omega)
        · -- a pair is read back as one character
          rw [h]
          simp only [List.length_cons]
          rcases ih t.length (by simp) t rfl with h | h
          · rw [h]; exact Or.inr (by omega)
          · exact Or.inr (by omega)

/-! ## Item by item -/

section

variable {F : Type}

lemma sortKeys_leaf {v : Json F} (hv : v.Leaf) : sortKeys v = v := by
  cases v <;> first | rfl | cases hv

lemma readItems_eq_map (a : Bool) (l : List (Json F)) : readItems a l = l.map (readBack a) := by
  induction l with
  | nil => rfl
  | cons v l ih => rw [readItems, ih, List.map_cons]

lemma readMembers_eq_map (a : Bool) (l : List (PyStr × Json F)) :
    readMembers a l = l.map fun m => (readStr a m.1, readBack a m.2) := by
  induction l with
  | nil => rfl
  | cons m l ih => rw [readMembers, ih, List.map_cons]

/-- The members of an object are sorted before or after their values are. -/
lemma sortKeys_obj (l : List (PyStr × Json F)) : sortKeys (.obj l) =
    .obj ((l.insertionSort memberLe).map fun m => (m.1, sortKeys m.2)) := by
  have hmap := List.map_insertionSort memberLe memberLe (fun m : PyStr × Json F =>
    (m.1, sortKeys m.2)) l fun _ _ _ _ => Iff.rfl
  rw [hmap, ← sortKeysMembers_eq_map]
  rfl

end

/-! ## Sizes -/

section

variable {F : Type}

mutual

/-- The characters of the strings in a value, and the members of its objects. -/
def chars : Json F → ℕ
  | .str s => s.length
  | .arr l => charsItems l
  | .obj l => charsMembers l
  | _ => 0

/-- `chars` of the items of an array. -/
def charsItems : List (Json F) → ℕ
  | [] => 0
  | v :: l => chars v + charsItems l

/-- `chars` of the members of an object. -/
def charsMembers : List (PyStr × Json F) → ℕ
  | [] => 0
  | m :: l => m.1.length + chars m.2 + 1 + charsMembers l

end

lemma charsItems_eq_sum (l : List (Json F)) : charsItems l = (l.map chars).sum := by
  induction l with
  | nil => rfl
  | cons v l ih => rw [charsItems, ih, List.map_cons, List.sum_cons]

lemma charsMembers_eq_sum (l : List (PyStr × Json F)) :
    charsMembers l = (l.map fun m => m.1.length + chars m.2 + 1).sum := by
  induction l with
  | nil => rfl
  | cons m l ih => rw [charsMembers, ih, List.map_cons, List.sum_cons]

lemma charsMembers_perm {l m : List (PyStr × Json F)} (h : l.Perm m) :
    charsMembers l = charsMembers m := by
  rw [charsMembers_eq_sum, charsMembers_eq_sum]
  exact (h.map _).sum_eq

/-- Sorting the keys loses nothing. -/
theorem chars_sortKeys (v : Json F) : chars (sortKeys v) = chars v := by
  induction v using Json.induction with
  | leaf v hv => rw [sortKeys_leaf hv]
  | arr l ih =>
    rw [sortKeys, chars, chars, sortKeysItems_eq_map, charsItems_eq_sum, charsItems_eq_sum,
      List.map_map]
    exact congrArg List.sum (List.map_congr_left ih)
  | obj l ih =>
    rw [sortKeys_obj, chars, chars, charsMembers_eq_sum, List.map_map,
      ← charsMembers_perm (List.perm_insertionSort memberLe l), charsMembers_eq_sum]
    refine congrArg List.sum (List.map_congr_left fun m hm => ?_)
    rw [Function.comp_apply, ih m ((List.perm_insertionSort memberLe l).mem_iff.mp hm)]

/-- A value in another order has the same size. -/
theorem Reordered.chars_eq {v w : Json F} (h : Reordered v w) : chars v = chars w := by
  rw [← chars_sortKeys v, ← chars_sortKeys w, h.sortKeys_eq]

/-- A part of a list of members is the whole list, or smaller. -/
lemma charsMembers_sublist {l m : List (PyStr × Json F)} (h : l.Sublist m) :
    l = m ∨ charsMembers l < charsMembers m := by
  induction h with
  | slnil => exact Or.inl rfl
  | cons x _ ih =>
    rw [charsMembers]
    rcases ih with rfl | hlt
    · exact Or.inr (by omega)
    · exact Or.inr (by omega)
  | cons_cons x _ ih =>
    rw [charsMembers, charsMembers]
    rcases ih with rfl | hlt
    · exact Or.inl rfl
    · exact Or.inr (by omega)

/-- A dictionary of members has them all, or is smaller. -/
lemma charsMembers_ofList (l : List (PyStr × Json F)) :
    (Dict.ofList l).items = l ∨ charsMembers (Dict.ofList l).items < charsMembers l := by
  have hsub : (Dict.ofList l).items.Subperm l :=
    (Dict.ofList l).nodup.of_map.subperm fun _ hp => Dict.mem_of_mem_ofList hp
  obtain ⟨m, hperm, hm⟩ := hsub
  -- a dictionary that keeps every member has them in the order of the list
  rcases charsMembers_sublist hm with rfl | hlt
  · have hn : (m.map Prod.fst).Nodup := (hperm.map Prod.fst).nodup_iff.mpr (Dict.ofList m).nodup
    exact Or.inl (Dict.items_ofList hn)
  · exact Or.inr (charsMembers_perm hperm ▸ hlt)

/-- If each item stays as it is or gets smaller, so does the list. -/
lemma map_eq_or_sum_lt {α : Type} {w : α → ℕ} {f : α → α} {l : List α}
    (h : ∀ x ∈ l, f x = x ∨ w (f x) < w x) :
    l.map f = l ∨ ((l.map f).map w).sum < (l.map w).sum := by
  induction l with
  | nil => exact Or.inl rfl
  | cons x l ih =>
    obtain ⟨hx, hl⟩ := List.forall_mem_cons.mp h
    simp only [List.map_cons, List.sum_cons]
    rcases hx with hx | hx
    · rcases ih hl with hl | hl
      · exact Or.inl (by rw [hx, hl])
      · exact Or.inr (by rw [hx]; omega)
    · rcases ih hl with hl | hl
      · exact Or.inr (by rw [hl]; omega)
      · exact Or.inr (by omega)

lemma charsMembers_readMembers {a : Bool} {l : List (PyStr × Json F)}
    (h : ∀ m ∈ l, readBack a m.2 = m.2 ∨ chars (readBack a m.2) < chars m.2) :
    readMembers a l = l ∨ charsMembers (readMembers a l) < charsMembers l := by
  rw [readMembers_eq_map, charsMembers_eq_sum, charsMembers_eq_sum]
  refine map_eq_or_sum_lt fun m hm => ?_
  dsimp only
  rcases h m hm with hv | hv
  · rcases length_readStr a m.1 with hk | hk
    · exact Or.inl (by rw [hk, hv])
    · exact Or.inr (by rw [hv]; omega)
  · rcases length_readStr a m.1 with hk | hk
    · exact Or.inr (by rw [hk]; omega)
    · exact Or.inr (by omega)

/-- **Reading back leaves a value as it is, or makes it smaller.** -/
theorem chars_readBack (a : Bool) (v : Json F) :
    readBack a v = v ∨ chars (readBack a v) < chars v := by
  induction v using Json.induction with
  | leaf v hv =>
    cases v with
    | str s => exact (length_readStr a s).imp (congrArg Json.str) id
    | arr l | obj l => cases hv
    | null | bool b | int n | float x | nonFinite k => exact Or.inl rfl
  | arr l ih =>
    rw [readBack, chars, chars, readItems_eq_map, charsItems_eq_sum, charsItems_eq_sum]
    exact (map_eq_or_sum_lt ih).imp (congrArg Json.arr) id
  | obj l ih =>
    rw [readBack, chars, chars]
    rcases charsMembers_readMembers (a := a) ih with hl | hl
    · rw [hl]
      exact (charsMembers_ofList l).imp (congrArg Json.obj) id
    · rcases charsMembers_ofList (readMembers a l) with hd | hd
      · exact Or.inr (by rw [hd]; exact hl)
      · exact Or.inr (by omega)

lemma chars_readBack_le (a : Bool) (v : Json F) : chars (readBack a v) ≤ chars v := by
  rcases chars_readBack a v with h | h
  · rw [h]
  · exact h.le

/-- What came back smaller is not the value in another order. -/
lemma readBack_eq_of_reordered {a : Bool} {v w : Json F} (h : Reordered v w)
    (hle : chars w ≤ chars (readBack a v)) : readBack a v = v := by
  have hsize := h.chars_eq
  exact (chars_readBack a v).resolve_right (by omega)

/-! ## Values that are read back -/

lemma readBack_arr_eq {a : Bool} {l : List (Json F)} (h : readBack a (.arr l) = .arr l) :
    ∀ v ∈ l, readBack a v = v := by
  rw [readBack, readItems_eq_map] at h
  exact List.map_inj_left.mp ((Json.arr.inj h).trans (List.map_id l).symm)

/-- In an object that is read back no key stands twice, and each value is read back. -/
lemma readBack_obj_eq {a : Bool} {l : List (PyStr × Json F)} (h : readBack a (.obj l) = .obj l) :
    (l.map Prod.fst).Nodup ∧ ∀ m ∈ l, readBack a m.2 = m.2 := by
  rw [readBack] at h
  have hitems := Json.obj.inj h
  have hn : (l.map Prod.fst).Nodup := by
    rw [← hitems]
    exact (Dict.ofList _).nodup
  -- were a member lost or changed, the object would have come back smaller
  have hread : readMembers a l = l := by
    rcases charsMembers_readMembers (a := a) fun m _ => chars_readBack a m.2 with hl | hl
    · exact hl
    · rcases charsMembers_ofList (readMembers a l) with hd | hd
      · exact hd.symm.trans hitems
      · rw [hitems] at hd
        omega
  rw [readMembers_eq_map] at hread
  have hmembers := List.map_inj_left.mp (hread.trans (List.map_id l).symm)
  exact ⟨hn, fun m hm => congrArg Prod.snd (hmembers m hm)⟩

/-- **Sorting the keys of a value that is read back gives the same value in another order.** -/
theorem reordered_sortKeys {a : Bool} {v : Json F} (h : readBack a v = v) :
    Reordered v (sortKeys v) := by
  induction v using Json.induction with
  | leaf v hv => rw [sortKeys_leaf hv]; exact .refl v
  | arr l ih =>
    rw [sortKeys, sortKeysItems_eq_map]
    refine .arr (List.forall₂_map_right_iff.mpr (List.forall₂_same.mpr fun v hv => ?_))
    exact ih v hv (readBack_arr_eq h v hv)
  | obj l ih =>
    obtain ⟨hn, hread⟩ := readBack_obj_eq h
    have hperm := List.perm_insertionSort memberLe l
    rw [sortKeys_obj]
    refine .obj hn hperm.symm (by rw [List.map_map]; rfl) ?_
    rw [List.map_map, List.forall₂_map_left_iff, List.forall₂_map_right_iff, List.forall₂_same]
    intro m hm
    have hml := hperm.mem_iff.mp hm
    exact ih m hml (hread m hml)

/-- Text that is not restricted to ASCII gives the sorted value back. -/
theorem readBack_sortKeys {a : Bool} {v : Json F} (h : readBack a v = v) :
    readBack false (sortKeys v) = sortKeys v := by
  induction v using Json.induction with
  | leaf v hv =>
    rw [sortKeys_leaf hv]
    cases v with
    | str s => rw [readBack, readStr_false]
    | arr l | obj l => cases hv
    | null | bool b | int n | float x | nonFinite k => rfl
  | arr l ih =>
    rw [sortKeys, sortKeysItems_eq_map, readBack, readItems_eq_map, List.map_map]
    exact congrArg Json.arr (List.map_congr_left fun v hv => ih v hv (readBack_arr_eq h v hv))
  | obj l ih =>
    obtain ⟨hn, hread⟩ := readBack_obj_eq h
    have hperm := List.perm_insertionSort memberLe l
    have hmembers : ((l.insertionSort memberLe).map fun m => (m.1, sortKeys m.2)).map
        (fun m => (readStr false m.1, readBack false m.2)) =
          (l.insertionSort memberLe).map fun m => (m.1, sortKeys m.2) := by
      rw [List.map_map]
      refine List.map_congr_left fun m hm => ?_
      have hml := hperm.mem_iff.mp hm
      rw [Function.comp_apply, readStr_false, ih m hml (hread m hml)]
    have hkeys : (((l.insertionSort memberLe).map fun m => (m.1, sortKeys m.2)).map
        Prod.fst).Nodup := by
      rw [List.map_map]
      exact (hperm.map Prod.fst).nodup_iff.mpr hn
    rw [sortKeys_obj, readBack, readMembers_eq_map, hmembers, Dict.items_ofList hkeys]

end

/-! ## What the encoder accepts -/

section

variable {F : Type}

mutual

/-- The levels of arrays and objects in a value. -/
def nesting : Json F → ℕ
  | .arr l => nestingItems l + 1
  | .obj l => nestingMembers l + 1
  | _ => 0

/-- The most levels in an item of an array. -/
def nestingItems : List (Json F) → ℕ
  | [] => 0
  | v :: l => max (nesting v) (nestingItems l)

/-- The most levels in a member of an object. -/
def nestingMembers : List (PyStr × Json F) → ℕ
  | [] => 0
  | m :: l => max (nesting m.2) (nestingMembers l)

end

lemma nestingItems_le {l : List (Json F)} {d : ℕ} :
    nestingItems l ≤ d ↔ ∀ v ∈ l, nesting v ≤ d := by
  induction l with
  | nil => simp [nestingItems]
  | cons v l ih => rw [nestingItems, max_le_iff, ih, List.forall_mem_cons]

lemma nestingMembers_le {l : List (PyStr × Json F)} {d : ℕ} :
    nestingMembers l ≤ d ↔ ∀ m ∈ l, nesting m.2 ≤ d := by
  induction l with
  | nil => simp [nestingMembers]
  | cons m l ih => rw [nestingMembers, max_le_iff, ih, List.forall_mem_cons]

variable [JsonRuntime F] {d d' : ℕ}

lemma checkItems_eq_ok {l : List (Json F)} :
    checkItems d l = .ok () ↔ ∀ v ∈ l, check d v = .ok () := by
  induction l with
  | nil => simp [checkItems]
  | cons v l ih =>
    rw [List.forall_mem_cons, ← ih]
    constructor
    · exact checkItems_cons
    · rintro ⟨hv, hl⟩
      rw [checkItems, hv]
      exact hl

lemma checkMembers_eq_ok {l : List (PyStr × Json F)} :
    checkMembers d l = .ok () ↔ ∀ m ∈ l, check d m.2 = .ok () := by
  induction l with
  | nil => simp [checkMembers]
  | cons m l ih =>
    rw [List.forall_mem_cons, ← ih]
    constructor
    · exact checkMembers_cons
    · rintro ⟨hm, hl⟩
      rw [checkMembers, hm]
      exact hl

lemma check_arr_eq_ok {l : List (Json F)} :
    check d (.arr l) = .ok () ↔ ∃ e, d = e + 1 ∧ ∀ v ∈ l, check e v = .ok () := by
  simp only [← checkItems_eq_ok]
  constructor
  · exact check_arr
  · rintro ⟨e, rfl, h⟩
    rwa [check]

lemma check_obj_eq_ok {l : List (PyStr × Json F)} :
    check d (.obj l) = .ok () ↔ ∃ e, d = e + 1 ∧ ∀ m ∈ l, check e m.2 = .ok () := by
  simp only [← checkMembers_eq_ok]
  constructor
  · exact check_obj
  · rintro ⟨e, rfl, h⟩
    rwa [check]

lemma check_leaf {v : Json F} (hv : v.Leaf) (d d' : ℕ) : check d v = check d' v := by
  cases v with
  | arr l | obj l => cases hv
  | null | bool b | int n | float x | nonFinite k | str s => rfl

/-- **What the encoder accepts at one depth it accepts at any depth that the value fits in.** -/
theorem check_iff_nesting_le {v : Json F} (h : check d v = .ok ()) :
    check d' v = .ok () ↔ nesting v ≤ d' := by
  induction v using Json.induction generalizing d d' with
  | leaf v hv =>
    have hzero : nesting v = 0 := by cases v <;> first | rfl | cases hv
    rw [check_leaf hv d' d, hzero]
    exact ⟨fun _ => Nat.zero_le d', fun _ => h⟩
  | arr l ih =>
    obtain ⟨e, rfl, hl⟩ := check_arr_eq_ok.mp h
    rw [check_arr_eq_ok, nesting]
    constructor
    · rintro ⟨e', rfl, hl'⟩
      exact Nat.succ_le_succ (nestingItems_le.mpr fun v hv => (ih v hv (hl v hv)).mp (hl' v hv))
    · intro hle
      obtain ⟨e', rfl⟩ : ∃ e', d' = e' + 1 := ⟨d' - 1, by omega⟩
      have hle' := Nat.le_of_succ_le_succ hle
      exact ⟨e', rfl, fun v hv => (ih v hv (hl v hv)).mpr (nestingItems_le.mp hle' v hv)⟩
  | obj l ih =>
    obtain ⟨e, rfl, hl⟩ := check_obj_eq_ok.mp h
    rw [check_obj_eq_ok, nesting]
    constructor
    · rintro ⟨e', rfl, hl'⟩
      exact Nat.succ_le_succ (nestingMembers_le.mpr fun m hm => (ih m hm (hl m hm)).mp (hl' m hm))
    · intro hle
      obtain ⟨e', rfl⟩ : ∃ e', d' = e' + 1 := ⟨d' - 1, by omega⟩
      have hle' := Nat.le_of_succ_le_succ hle
      exact ⟨e', rfl, fun m hm => (ih m hm (hl m hm)).mpr (nestingMembers_le.mp hle' m hm)⟩

/-- The order of the keys does not matter to the encoder. -/
lemma check_sortKeys {v : Json F} : check d (sortKeys v) = .ok () ↔ check d v = .ok () := by
  induction v using Json.induction generalizing d with
  | leaf v hv => rw [sortKeys_leaf hv]
  | arr l ih =>
    rw [sortKeys, sortKeysItems_eq_map, check_arr_eq_ok, check_arr_eq_ok]
    simp only [List.forall_mem_map]
    exact exists_congr fun e => and_congr_right fun _ => forall₂_congr fun v hv => ih v hv
  | obj l ih =>
    rw [sortKeys_obj, check_obj_eq_ok, check_obj_eq_ok]
    simp only [List.forall_mem_map, List.mem_insertionSort]
    exact exists_congr fun e => and_congr_right fun _ => forall₂_congr fun m hm => ih m hm

/-- What is read back can be written again. -/
lemma check_readBack {a : Bool} {v : Json F} (h : check d v = .ok ()) :
    check d (readBack a v) = .ok () := by
  induction v using Json.induction generalizing d with
  | leaf v hv =>
    cases v with
    | arr l | obj l => cases hv
    | null | bool b | int n | float x | nonFinite k | str s => exact h
  | arr l ih =>
    obtain ⟨e, rfl, hl⟩ := check_arr_eq_ok.mp h
    rw [readBack, readItems_eq_map, check_arr_eq_ok]
    exact ⟨e, rfl, List.forall_mem_map.mpr fun v hv => ih v hv (hl v hv)⟩
  | obj l ih =>
    obtain ⟨e, rfl, hl⟩ := check_obj_eq_ok.mp h
    rw [readBack, readMembers_eq_map, check_obj_eq_ok]
    refine ⟨e, rfl, fun p hp => ?_⟩
    obtain ⟨m, hm, rfl⟩ := List.mem_map.mp (Dict.mem_of_mem_ofList hp)
    exact ih m hm (hl m hm)

end

end Omkit.Lib
