import Omkit.Lib.Json.Sorted

/-!
# The canonical text determines the value

Two values with one text under `sort_keys=True` are the same JSON value: their objects have the
same members in some order, their numbers have the same spelling, and their strings have the same
UTF-16 code units.  The units are all that text restricted to ASCII tells of a string, since two
surrogates which form a pair are written as the character is that they stand for.
-/

namespace Omkit.Lib

/-! ## Strings -/

/-- The UTF-16 code units of a character. -/
def PyChar.codeUnits : PyChar → List ℕ
  | scalar c =>
    if c.toNat < 0x10000 then [c.toNat]
    else [0xd800 + (c.toNat - 0x10000) / 0x400, 0xdc00 + (c.toNat - 0x10000) % 0x400]
  | surrogate k => [0xd800 + k]

/-- The UTF-16 code units of a string. -/
def codeUnits (s : PyStr) : List ℕ := s.flatMap PyChar.codeUnits

/-- The code unit of a unit that the scanner finds in ASCII text. -/
def StrUnit.codeUnit : StrUnit → ℕ
  | lit x => x.code
  | esc u => u

lemma shortEscape_lt {c e : Char} (h : shortEscape c = some e) : c.toNat < 0x10000 := by
  revert h
  fun_cases shortEscape c
  all_goals
    intro h
    cases h
  all_goals
    subst_vars
    decide

lemma map_codeUnit_unitsOf (x : PyChar) :
    (unitsOf true x).map StrUnit.codeUnit = x.codeUnits := by
  cases x with
  | surrogate k => rfl
  | scalar c =>
    simp only [unitsOf, PyChar.codeUnits]
    cases hs : shortEscape c with
    | some e => exact (if_pos (shortEscape_lt hs)).symm
    | none =>
      simp only [true_and]
      split_ifs with h₁ h₂ h₃
      · rfl
      · rfl
      · rfl
      · omega

/-- **ASCII text tells the code units of a string, and where it ends.** -/
theorem strText_append_inj {s t r r' : PyStr} (h : strText true s ++ r = strText true t ++ r') :
    codeUnits s = codeUnits t ∧ r = r' := by
  have hs := scanUnits_body true s r
  have ht := scanUnits_body true t r'
  rw [strText_append, strText_append, List.cons.injEq] at h
  rw [h.2] at hs
  obtain ⟨hunits, hrest⟩ := Prod.mk.inj (Except.ok.inj (hs.symm.trans ht))
  have hmap := congrArg (List.map StrUnit.codeUnit) hunits
  simp only [List.map_flatMap, map_codeUnit_unitsOf] at hmap
  exact ⟨hmap, hrest⟩

lemma joinUnits_codeUnits (c : Char) (us : List StrUnit) :
    joinUnits ((PyChar.scalar c).codeUnits.map .esc ++ us) = .scalar c :: joinUnits us := by
  simp only [PyChar.codeUnits]
  split_ifs with h
  · rw [List.map_singleton, List.singleton_append, joinUnits_esc isHigh_scalar, ofUnit_scalar]
  · rw [List.map_cons, List.map_singleton, List.cons_append, List.singleton_append,
      joinUnits_pair (not_lt.mp h)]

/-- A string without surrogates is determined by its code units. -/
theorem codeUnits_injOn {s t : PyStr} (hs : WellFormed s) (ht : WellFormed t)
    (h : codeUnits s = codeUnits t) : s = t := by
  have hjoin : ∀ l : List Char,
      joinUnits ((codeUnits (l.map PyChar.scalar)).map .esc) = l.map PyChar.scalar := by
    intro l
    induction l with
    | nil => rfl
    | cons c l ih =>
      rw [List.map_cons, codeUnits, List.flatMap_cons, List.map_append, joinUnits_codeUnits]
      exact congrArg _ ih
  obtain ⟨l, rfl⟩ := hs
  obtain ⟨m, rfl⟩ := ht
  rw [← hjoin l, h, hjoin m]

/-! ## The same value -/

section

variable {F : Type}

/-- The same JSON value: numbers are told apart by their spelling, strings by their code units, and
the members of an object stand in any order. -/
inductive SameValue : Json F → Json F → Prop
  | refl (v : Json F) : SameValue v v
  | str {s t : PyStr} (h : codeUnits s = codeUnits t) : SameValue (.str s) (.str t)
  | arr {l l' : List (Json F)} (h : List.Forall₂ SameValue l l') : SameValue (.arr l) (.arr l')
  | obj {l m l' : List (PyStr × Json F)} (hperm : l.Perm m)
      (hkeys : m.map (fun x => codeUnits x.1) = l'.map fun x => codeUnits x.1)
      (hvalues : List.Forall₂ SameValue (m.map Prod.snd) (l'.map Prod.snd)) :
      SameValue (.obj l) (.obj l')

/-- Members with the same key and the same value. -/
def SameMember (m m' : PyStr × Json F) : Prop := codeUnits m.1 = codeUnits m'.1 ∧ SameValue m.2 m'.2

/-- Two lists of members that agree in some order. -/
lemma SameValue.obj_of_perm {l l' m m' : List (PyStr × Json F)} (hl : l.Perm m)
    (h : List.Forall₂ SameMember m m') (hl' : m'.Perm l') : SameValue (.obj l) (.obj l') := by
  have hcomp : Relation.Comp (List.Forall₂ SameMember) List.Perm m l' := ⟨m', h, hl'⟩
  rw [List.forall₂_comp_perm_eq_perm_comp_forall₂] at hcomp
  obtain ⟨k, hmk, hk⟩ := hcomp
  refine .obj (hl.trans hmk) ?_ ?_
  · refine List.forall₂_eq_eq_eq ▸ ?_
    rw [List.forall₂_map_left_iff, List.forall₂_map_right_iff]
    exact hk.imp fun _ _ hm => hm.1
  · rw [List.forall₂_map_left_iff, List.forall₂_map_right_iff]
    exact hk.imp fun _ _ hm => hm.2

lemma forall₂_of_mem {α β : Type} {R S : α → β → Prop} {l : List α} {l' : List β}
    (h : List.Forall₂ R l l') (hS : ∀ a ∈ l, ∀ b ∈ l', R a b → S a b) : List.Forall₂ S l l' := by
  induction h with
  | nil => exact .nil
  | cons hab _ ih =>
    refine .cons (hS _ (by simp) _ (by simp) hab) (ih fun a ha b hb => ?_)
    exact hS a (.tail _ ha) b (.tail _ hb)

lemma wf_of_mem {l : List (Json F)} (h : WfItems l) : ∀ v ∈ l, v.Wf := by
  induction l with
  | nil => simp
  | cons v l ih => exact List.forall_mem_cons.mpr ⟨h.1, ih h.2⟩

lemma member_wf_of_mem {l : List (PyStr × Json F)} (h : WfMembers l) :
    ∀ m ∈ l, WellFormed m.1 ∧ m.2.Wf := by
  induction l with
  | nil => simp
  | cons m l ih => exact List.forall_mem_cons.mpr ⟨⟨h.1, h.2.1⟩, ih h.2.2⟩

lemma wfItems_of_forall {l : List (Json F)} (h : ∀ v ∈ l, v.Wf) : WfItems l := by
  induction l with
  | nil => trivial
  | cons v l ih => exact ⟨h v (by simp), ih fun w hw => h w (by simp [hw])⟩

lemma wfMembers_of_forall {l : List (PyStr × Json F)}
    (h : ∀ m ∈ l, WellFormed m.1 ∧ m.2.Wf) : WfMembers l := by
  induction l with
  | nil => trivial
  | cons m l ih =>
    obtain ⟨hk, hv⟩ := h m (by simp)
    exact ⟨hk, hv, ih fun n hn => h n (by simp [hn])⟩

/-- Sorting the keys keeps a value well-formed. -/
theorem wf_sortKeys {v : Json F} (h : v.Wf) : (sortKeys v).Wf := by
  induction v using Json.induction with
  | leaf v hv =>
    rw [sortKeys_leaf hv]
    exact h
  | arr l ih =>
    rw [sortKeys, sortKeysItems_eq_map]
    refine wfItems_of_forall fun w hw => ?_
    obtain ⟨v, hv, rfl⟩ := List.mem_map.mp hw
    exact ih v hv (wf_of_mem h v hv)
  | obj l ih =>
    have hperm := List.perm_insertionSort memberLe l
    rw [sortKeys_obj]
    constructor
    · rw [List.map_map]
      exact (hperm.map Prod.fst).nodup_iff.mpr h.1
    · refine wfMembers_of_forall fun m hm => ?_
      obtain ⟨n, hn, rfl⟩ := List.mem_map.mp hm
      have hnl := hperm.mem_iff.mp hn
      obtain ⟨hk, hv⟩ := member_wf_of_mem h.2 n hnl
      exact ⟨hk, ih n hnl hv⟩

/-- Without surrogates, the same value is the value with its keys in another order. -/
theorem SameValue.reordered {v w : Json F} (h : SameValue v w) (hv : v.Wf) (hw : w.Wf) :
    Reordered v w := by
  induction v using Json.induction generalizing w with
  | leaf v hleaf =>
    cases h with
    | refl => exact .refl v
    | str h => rw [codeUnits_injOn hv hw h]; exact .refl _
    | arr _ | obj _ _ _ => cases hleaf
  | arr l ih =>
    cases h with
    | refl => exact .refl _
    | @arr _ l' h =>
      refine .arr (forall₂_of_mem h fun a ha b hb hab => ?_)
      exact ih a ha hab (wf_of_mem hv a ha) (wf_of_mem hw b hb)
  | obj l ih =>
    cases h with
    | refl => exact .refl _
    | @obj _ m l' hperm hkeys hvalues =>
      have hm : ∀ x ∈ m, WellFormed x.1 ∧ x.2.Wf :=
        fun x hx => member_wf_of_mem hv.2 x (hperm.mem_iff.mpr hx)
      have hl' := member_wf_of_mem hw.2
      refine .obj hv.1 hperm ?_ (forall₂_of_mem hvalues fun a ha b hb hab => ?_)
      · -- key by key
        rw [← List.forall₂_eq_eq_eq, List.forall₂_map_left_iff, List.forall₂_map_right_iff] at hkeys ⊢
        exact forall₂_of_mem hkeys fun x hx y hy hxy =>
          codeUnits_injOn (hm x hx).1 (hl' y hy).1 hxy
      · obtain ⟨x, hx, rfl⟩ := List.mem_map.mp ha
        obtain ⟨y, hy, rfl⟩ := List.mem_map.mp hb
        exact ih x (hperm.mem_iff.mpr hx) hab (hm x hx).2 (hl' y hy).2

end

/-! ## Canonical text -/

section

variable {F : Type} [JsonRuntime F] {o : DumpOpts} {d : ℕ}

/-- A list of texts, each after a separator, is taken apart at its closing bracket. -/
lemma flatMap_close_inj {α : Type} {R : α → α → Prop} {f : α → PyStr} {sep : PyStr} {c : Char}
    (hc : ∀ r, Stops (.scalar c :: r)) (hsep : ∃ w, sep = .scalar ',' :: w) (hne : c ≠ ',')
    {l l' : List α} {r r' : PyStr}
    (hf : ∀ x ∈ l, ∀ y ∈ l', ∀ q q', Stops q → Stops q' → f x ++ q = f y ++ q' → R x y ∧ q = q')
    (h : l.flatMap (fun x => sep ++ f x) ++ .scalar c :: r =
      l'.flatMap (fun x => sep ++ f x) ++ .scalar c :: r') :
    List.Forall₂ R l l' ∧ r = r' := by
  obtain ⟨w, rfl⟩ := hsep
  have hstops : ∀ (k : List α) q, Stops (k.flatMap (fun x => .scalar ',' :: w ++ f x) ++
      .scalar c :: q) := by
    intro k q
    cases k with
    | nil => exact hc q
    | cons x k => exact stops_cons (by decide) _
  induction l generalizing l' with
  | nil =>
    cases l' with
    | nil => exact ⟨.nil, (List.cons.inj h).2⟩
    | cons y l' => exact absurd (PyChar.scalar.inj (List.cons.inj h).1) hne
  | cons x l ih =>
    cases l' with
    | nil => exact absurd (PyChar.scalar.inj (List.cons.inj h).1).symm hne
    | cons y l' =>
      simp only [List.flatMap_cons, List.append_assoc, List.append_cancel_left_eq] at h
      obtain ⟨hxy, hrest⟩ := hf x (by simp) y (by simp) _ _ (hstops l r) (hstops l' r') h
      obtain ⟨hl, hr⟩ := ih (fun a ha b hb => hf a (.tail _ ha) b (.tail _ hb)) hrest
      exact ⟨.cons hxy hl, hr⟩

lemma renderItems_eq_flatMap (o : DumpOpts) (l : List (Json F)) :
    renderItems o l = l.flatMap (fun v => o.itemSep ++ render o v) ++ [.scalar ']'] := by
  induction l with
  | nil => rfl
  | cons v l ih => rw [renderItems, ih, List.flatMap_cons]; simp only [List.append_assoc]

/-- The text of a member. -/
def renderMember (o : DumpOpts) (m : PyStr × Json F) : PyStr :=
  strText o.ensureAscii m.1 ++ (o.keySep ++ render o m.2)

lemma renderMembers_eq_flatMap (o : DumpOpts) (l : List (PyStr × Json F)) :
    renderMembers o l = l.flatMap (fun m => o.itemSep ++ renderMember o m) ++ [.scalar '}'] := by
  induction l with
  | nil => rfl
  | cons m l ih =>
    rw [renderMembers, ih, List.flatMap_cons, renderMember]
    simp only [List.append_assoc]

/-- A member is determined by its text. -/
lemma renderMember_append_inj (ha : o.ensureAscii = true) {k k' : PyStr} {v w : Json F}
    {q q' : PyStr} (h : renderMember o (k, v) ++ q = renderMember o (k', w) ++ q') :
    codeUnits k = codeUnits k' ∧ render o v ++ q = render o w ++ q' := by
  simp only [renderMember, ha, List.append_assoc] at h
  obtain ⟨hk, hrest⟩ := strText_append_inj h
  exact ⟨hk, List.append_cancel_left hrest⟩

/-- What starts alike is read back alike, and goes on alike. -/
lemma readBack_eq_of_render (ho : o.Ok) {v w : Json F} {r r' : PyStr} (hv : check d v = .ok ())
    (hw : check d w = .ok ()) (hr : Stops r) (hr' : Stops r')
    (h : render o v ++ r = render o w ++ r') :
    readBack o.ensureAscii v = readBack o.ensureAscii w ∧ r = r' := by
  have hscan := scanValue_render ho d v hv (weight v + weight w) (by omega) r hr
  have hscan' := scanValue_render ho d w hw (weight v + weight w) (by omega) r' hr'
  rw [h, hscan'] at hscan
  obtain ⟨hread, hrest⟩ := Prod.mk.inj (Except.ok.inj hscan)
  exact ⟨hread.symm, hrest.symm⟩

lemma render_arr_tail (v : Json F) (l : List (Json F)) (r : PyStr) :
    o.itemSep ++ (render o (.arr (v :: l)) ++ r).tail =
      (v :: l).flatMap (fun v => o.itemSep ++ render o v) ++ .scalar ']' :: r := by
  rw [render, renderItems_eq_flatMap, List.flatMap_cons]
  simp only [List.cons_append, List.tail_cons, List.append_assoc, List.nil_append]

lemma render_obj_tail (m : PyStr × Json F) (l : List (PyStr × Json F)) (r : PyStr) :
    o.itemSep ++ (render o (.obj (m :: l)) ++ r).tail =
      (m :: l).flatMap (fun m => o.itemSep ++ renderMember o m) ++ .scalar '}' :: r := by
  rw [render, renderMembers_eq_flatMap, List.flatMap_cons, renderMember]
  simp only [List.cons_append, List.tail_cons, List.append_assoc, List.nil_append]

/-- What the texts of the items determine, the text of an array does. -/
lemma render_arr_inj {R : Json F → Json F → Prop} (ho : o.Ok) {f : Json F → Json F}
    {l l' : List (Json F)} {r r' : PyStr}
    (hread : readBack o.ensureAscii (.arr (l.map f)) = readBack o.ensureAscii (.arr (l'.map f)))
    (hf : ∀ x ∈ l, ∀ y ∈ l', ∀ q q', Stops q → Stops q' →
      render o (f x) ++ q = render o (f y) ++ q' → R x y ∧ q = q')
    (h : render o (.arr (l.map f)) ++ r = render o (.arr (l'.map f)) ++ r') :
    List.Forall₂ R l l' := by
  have hlen : l.length = l'.length := by
    have hitems := congrArg List.length (Json.arr.inj hread)
    simpa only [readItems_eq_map, List.length_map] using hitems
  cases l with
  | nil => rw [List.eq_nil_of_length_eq_zero hlen.symm]; exact .nil
  | cons x l =>
    cases l' with
    | nil => cases hlen
    | cons y l' =>
      have htail := congrArg (fun t => o.itemSep ++ t.tail) h
      simp only [List.map_cons, render_arr_tail] at htail
      rw [← List.map_cons, ← List.map_cons, List.flatMap_map, List.flatMap_map] at htail
      obtain ⟨w, hw, -⟩ := ho.item
      exact (flatMap_close_inj (stops_cons (by decide)) ⟨w, hw⟩ (by decide) hf htail).1

/-- What the texts of the members determine, the text of an object does. -/
lemma render_obj_inj {R : PyStr × Json F → PyStr × Json F → Prop} (ho : o.Ok)
    {f : PyStr × Json F → PyStr × Json F} {l l' : List (PyStr × Json F)} {r r' : PyStr}
    (hf : ∀ x ∈ l, ∀ y ∈ l', ∀ q q', Stops q → Stops q' →
      renderMember o (f x) ++ q = renderMember o (f y) ++ q' → R x y ∧ q = q')
    (h : render o (.obj (l.map f)) ++ r = render o (.obj (l'.map f)) ++ r') :
    List.Forall₂ R l l' := by
  have hbraces : text "\x7b\x7d" = [.scalar '\x7b', .scalar '\x7d'] := by decide
  cases l with
  | nil =>
    cases l' with
    | nil => exact .nil
    | cons y l' => simp [render, strText, hbraces] at h
  | cons x l =>
    cases l' with
    | nil => simp [render, strText, hbraces] at h
    | cons y l' =>
      have htail := congrArg (fun t => o.itemSep ++ t.tail) h
      simp only [List.map_cons, render_obj_tail] at htail
      rw [← List.map_cons, ← List.map_cons, List.flatMap_map, List.flatMap_map] at htail
      obtain ⟨w, hw, -⟩ := ho.item
      exact (flatMap_close_inj (stops_cons (by decide)) ⟨w, hw⟩ (by decide) hf htail).1

/-- **Two values with one canonical text are the same value.** -/
theorem sortKeys_render_inj (ho : o.Ok) (ha : o.ensureAscii = true) {v w : Json F} {r r' : PyStr}
    (hv : check d v = .ok ()) (hw : check d w = .ok ()) (hr : Stops r) (hr' : Stops r')
    (h : render o (sortKeys v) ++ r = render o (sortKeys w) ++ r') : SameValue v w ∧ r = r' := by
  induction v using Json.induction generalizing d w r r' with
  | leaf v hleaf =>
    obtain ⟨hread, hrest⟩ := readBack_eq_of_render ho (check_sortKeys.mpr hv)
      (check_sortKeys.mpr hw) hr hr' h
    rw [sortKeys_leaf hleaf] at h hread
    cases v with
    | arr l | obj l => cases hleaf
    | str s =>
      cases w with
      | str t =>
        rw [sortKeys_leaf (by trivial), render, render, ha] at h
        exact ⟨.str (strText_append_inj h).1, hrest⟩
      | arr l | obj l | null | bool b | int n | float x | nonFinite k => cases hread
    | null | bool b | int n | float x | nonFinite k =>
      cases w with
      | str t | arr l | obj l => cases hread
      | null | bool b | int n | float x | nonFinite k =>
        cases hread
        all_goals exact ⟨.refl _, hrest⟩
  | arr l ih =>
    obtain ⟨hread, hrest⟩ := readBack_eq_of_render ho (check_sortKeys.mpr hv)
      (check_sortKeys.mpr hw) hr hr' h
    cases w with
    | arr l' =>
      obtain ⟨e, rfl, hl⟩ := check_arr_eq_ok.mp hv
      obtain ⟨e', he, hl'⟩ := check_arr_eq_ok.mp hw
      obtain rfl := Nat.succ.inj he
      rw [sortKeys, sortKeys, sortKeysItems_eq_map, sortKeysItems_eq_map] at h hread
      refine ⟨.arr (render_arr_inj ho hread (fun x hx y hy q q' hq hq' heq => ?_) h), hrest⟩
      exact ih x hx (hl x hx) (hl' y hy) hq hq' heq
    | null | bool b | int n | float x | nonFinite k | str s | obj l' => cases hread
  | obj l ih =>
    obtain ⟨hread, hrest⟩ := readBack_eq_of_render ho (check_sortKeys.mpr hv)
      (check_sortKeys.mpr hw) hr hr' h
    cases w with
    | obj l' =>
      obtain ⟨e, rfl, hl⟩ := check_obj_eq_ok.mp hv
      obtain ⟨e', he, hl'⟩ := check_obj_eq_ok.mp hw
      obtain rfl := Nat.succ.inj he
      have hperm := List.perm_insertionSort memberLe l
      have hperm' := List.perm_insertionSort memberLe l'
      rw [sortKeys_obj, sortKeys_obj] at h
      refine ⟨.obj_of_perm hperm.symm (render_obj_inj ho (fun x hx y hy q q' hq hq' heq => ?_) h)
        hperm', hrest⟩
      -- a member of the sorted list is a member of the list
      have hx' := hperm.mem_iff.mp hx
      obtain ⟨hkey, htext⟩ := renderMember_append_inj ha heq
      obtain ⟨hvalue, hq⟩ :=
        ih x hx' (hl x hx') (hl' y (hperm'.mem_iff.mp hy)) hq hq' htext
      exact ⟨⟨hkey, hvalue⟩, hq⟩
    | null | bool b | int n | float x | nonFinite k | str s | arr l' => cases hread

end

end Omkit.Lib
