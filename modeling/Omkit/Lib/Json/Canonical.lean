import Omkit.Lib.Json.Value

/-!
# Canonical text

Two values that differ in the order of the keys of their objects have one text under
`sort_keys=True`: a list of members with distinct keys is determined, up to their order, by the
sorted list.
-/

namespace Omkit.Lib

/-! ## The order of strings -/

lemma PyChar.scalar_code_ne (c : Char) (k : Fin 2048) : (scalar c).code ≠ (surrogate k).code := by
  have hc : c.toNat < 0xd800 ∨ 0xdfff < c.toNat ∧ c.toNat < 0x110000 := c.valid
  have hk := k.isLt
  simp only [code]
  omega

lemma PyChar.code_injective {x y : PyChar} (h : x.code = y.code) : x = y := by
  cases x with
  | scalar c =>
    cases y with
    | scalar d => rw [Char.ext (UInt32.toNat_inj.mp h)]
    | surrogate j => exact absurd h (scalar_code_ne c j)
  | surrogate i =>
    cases y with
    | scalar d => exact absurd h.symm (scalar_code_ne d i)
    | surrogate j => rw [Fin.ext (Nat.add_left_cancel h)]

lemma strLe_antisymm {s t : PyStr} (h : strLe s t = true) (h' : strLe t s = true) : s = t := by
  induction s generalizing t with
  | nil =>
    cases t with
    | nil => rfl
    | cons y t => cases h'
  | cons x s ih =>
    cases t with
    | nil => cases h
    | cons y t =>
      simp only [strLe, Bool.or_eq_true, Bool.and_eq_true, decide_eq_true_eq] at h h'
      have hcode : x.code = y.code := by omega
      have hst : strLe s t = true := (h.resolve_left (by omega)).2
      have hts : strLe t s = true := (h'.resolve_left (by omega)).2
      rw [PyChar.code_injective hcode, ih hst hts]

lemma strLe_total (s t : PyStr) : strLe s t = true ∨ strLe t s = true := by
  induction s generalizing t with
  | nil => exact Or.inl rfl
  | cons x s ih =>
    cases t with
    | nil => exact Or.inr rfl
    | cons y t =>
      simp only [strLe, Bool.or_eq_true, Bool.and_eq_true, decide_eq_true_eq]
      rcases Nat.lt_trichotomy x.code y.code with hlt | heq | hgt
      · exact Or.inl (Or.inl hlt)
      · exact (ih t).imp (fun h => Or.inr ⟨heq, h⟩) fun h => Or.inr ⟨heq.symm, h⟩
      · exact Or.inr (Or.inl hgt)

lemma strLe_trans {s t u : PyStr} (h : strLe s t = true) (h' : strLe t u = true) :
    strLe s u = true := by
  induction s generalizing t u with
  | nil => rfl
  | cons x s ih =>
    cases t with
    | nil => cases h
    | cons y t =>
      cases u with
      | nil => cases h'
      | cons z u =>
        simp only [strLe, Bool.or_eq_true, Bool.and_eq_true, decide_eq_true_eq] at h h' ⊢
        rcases h with h | ⟨h, hst⟩
        · exact Or.inl (by omega)
        · rcases h' with h' | ⟨h', htu⟩
          · exact Or.inl (by omega)
          · exact Or.inr ⟨h.trans h', ih hst htu⟩

/-! ## Sorted members -/

section

variable {F : Type}

/-- The order of members: that of their keys. -/
def memberLe (m m' : PyStr × Json F) : Prop := strLe m.1 m'.1 = true

instance : DecidableRel (memberLe (F := F)) := fun m m' =>
  inferInstanceAs (Decidable (strLe m.1 m'.1 = true))

instance : Std.Total (memberLe (F := F)) := ⟨fun m m' => strLe_total m.1 m'.1⟩

instance : IsTrans (PyStr × Json F) memberLe := ⟨fun _ _ _ => strLe_trans⟩

/-- Members with distinct keys are sorted into one list, whatever their order. -/
lemma insertionSort_eq_of_perm {l m : List (PyStr × Json F)} (h : l.Perm m)
    (hn : (l.map Prod.fst).Nodup) : l.insertionSort memberLe = m.insertionSort memberLe := by
  have hl := List.perm_insertionSort memberLe l
  have hm := List.perm_insertionSort memberLe m
  refine List.Perm.eq_of_pairwise (fun x y hx hy hxy hyx => ?_)
    (List.pairwise_insertionSort memberLe l) (List.pairwise_insertionSort memberLe m)
    (hl.trans (h.trans hm.symm))
  exact List.inj_on_of_nodup_map hn (hl.mem_iff.mp hx) (h.mem_iff.mpr (hm.mem_iff.mp hy))
    (strLe_antisymm hxy hyx)

/-! ## Values in another order -/

/-- The same value, with the keys of its objects in another order at any depth.  An object has no
key twice. -/
inductive Reordered : Json F → Json F → Prop
  | refl (v : Json F) : Reordered v v
  | arr {l l' : List (Json F)} (h : List.Forall₂ Reordered l l') : Reordered (.arr l) (.arr l')
  | obj {l m l' : List (PyStr × Json F)} (hn : (l.map Prod.fst).Nodup) (hperm : l.Perm m)
    (hkeys : m.map Prod.fst = l'.map Prod.fst)
    (hvalues : List.Forall₂ Reordered (m.map Prod.snd) (l'.map Prod.snd)) :
    Reordered (.obj l) (.obj l')

lemma sortKeysItems_eq_map (l : List (Json F)) : sortKeysItems l = l.map sortKeys := by
  induction l with
  | nil => rfl
  | cons v l ih => rw [sortKeysItems, ih, List.map_cons]

lemma sortKeysMembers_eq_map (l : List (PyStr × Json F)) :
    sortKeysMembers l = l.map fun m => (m.1, sortKeys m.2) := by
  induction l with
  | nil => rfl
  | cons m l ih => rw [sortKeysMembers, ih, List.map_cons]

/-- Members are determined by their keys and their values. -/
lemma map_sortKeys_eq {m l : List (PyStr × Json F)} (hkeys : m.map Prod.fst = l.map Prod.fst)
    (hvalues : (m.map Prod.snd).map sortKeys = (l.map Prod.snd).map sortKeys) :
    (m.map fun x => (x.1, sortKeys x.2)) = l.map fun x => (x.1, sortKeys x.2) := by
  have hzip : ∀ l : List (PyStr × Json F), (l.map fun x => (x.1, sortKeys x.2)) =
      (l.map Prod.fst).zip ((l.map Prod.snd).map sortKeys) := by
    intro l
    induction l with
    | nil => rfl
    | cons x l ih => simp [ih]
  rw [hzip, hzip, hkeys, hvalues]

lemma map_eq_of_forall₂ {α β : Type} {R : α → α → Prop} {f : α → β} {l l' : List α}
    (h : List.Forall₂ R l l') (hf : ∀ a ∈ l, ∀ b, R a b → f a = f b) : l.map f = l'.map f := by
  induction h with
  | nil => rfl
  | cons hab _ ih =>
    obtain ⟨hhead, htail⟩ := List.forall_mem_cons.mp hf
    rw [List.map_cons, List.map_cons, hhead _ hab, ih htail]

/-- **A value is sorted into one value, whatever the order of its keys.** -/
theorem Reordered.sortKeys_eq {v w : Json F} (h : Reordered v w) : sortKeys v = sortKeys w := by
  induction v using Json.induction generalizing w with
  | leaf v hv =>
    cases h with
    | refl => rfl
    | arr _ | obj _ _ _ _ => cases hv
  | arr l ih =>
    cases h with
    | refl => rfl
    | @arr _ l' h =>
      have hmap : l.map sortKeys = l'.map sortKeys :=
        map_eq_of_forall₂ h fun a ha _ hab => ih a ha hab
      rw [sortKeys, sortKeys, sortKeysItems_eq_map, sortKeysItems_eq_map, hmap]
  | obj l ih =>
    cases h with
    | refl => rfl
    | @obj _ m l' hn hperm hkeys hvalues =>
      have hmap : (m.map Prod.snd).map sortKeys = (l'.map Prod.snd).map sortKeys := by
        refine map_eq_of_forall₂ hvalues fun a ha _ hab => ?_
        obtain ⟨x, hx, rfl⟩ := List.mem_map.mp ha
        exact ih x (hperm.mem_iff.mpr hx) hab
      have hn' : ((l.map fun x => (x.1, sortKeys x.2)).map Prod.fst).Nodup := by
        rw [List.map_map]
        exact hn
      have hsort := insertionSort_eq_of_perm (hperm.map fun x => (x.1, sortKeys x.2)) hn'
      rw [map_sortKeys_eq hkeys hmap] at hsort
      rw [sortKeys, sortKeys, sortKeysMembers_eq_map, sortKeysMembers_eq_map]
      exact congrArg Json.obj hsort

end

end Omkit.Lib
