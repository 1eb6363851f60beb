import Mathlib.Data.List.Forall2
import Mathlib.Tactic.Common

/-!
# Lists that are related item by item
-/

namespace Omkit.Lib

variable {α β ε : Type} {R : α → β → Prop} {l : List α} {m : List β}

lemma exists_right (h : List.Forall₂ R l m) {a : α} (ha : a ∈ l) : ∃ b ∈ m, R a b := by
  induction h with
  | nil => simp at ha
  | cons hab hrest ih =>
    rename_i a' b l m
    rcases List.mem_cons.mp ha with rfl | ha
    · exact ⟨b, by simp, hab⟩
    · obtain ⟨b', hb', h'⟩ := ih ha
      exact ⟨b', .tail _ hb', h'⟩

lemma exists_left (h : List.Forall₂ R l m) {b : β} (hb : b ∈ m) : ∃ a ∈ l, R a b :=
  exists_right h.flip hb

/-- Related items may be mapped to related items. -/
lemma forall₂_map {γ δ : Type} {S : γ → δ → Prop} {f : α → γ} {g : β → δ}
    (h : List.Forall₂ R l m) (hfg : ∀ a ∈ l, ∀ b, R a b → S (f a) (g b)) :
    List.Forall₂ S (l.map f) (m.map g) := by
  induction h with
  | nil => exact .nil
  | cons hab hrest ih =>
    exact .cons (hfg _ List.mem_cons_self _ hab) (ih fun a ha => hfg a (List.mem_cons_of_mem _ ha))

/-- A traversal that raises nowhere gives every item its result. -/
lemma forall₂_of_mapM {f : α → Except ε β} (h : l.mapM f = .ok m) :
    List.Forall₂ (fun a b => f a = .ok b) l m := by
  induction l generalizing m with
  | nil =>
    obtain rfl : [] = m := by simpa [pure, Except.pure] using h
    exact .nil
  | cons a l ih =>
    rw [List.mapM_cons] at h
    cases ha : f a with
    | error e => simp [ha, bind, Except.bind] at h
    | ok b =>
      cases hrest : l.mapM f with
      | error e => simp [ha, hrest, bind, Except.bind] at h
      | ok rest =>
        obtain rfl : b :: rest = m := by
          simpa [ha, hrest, bind, Except.bind, pure, Except.pure] using h
        exact .cons ha (ih hrest)

/-- A traversal raises exactly if one of its items does. -/
lemma mapM_raises_iff {f : α → Except ε β} :
    (∃ e, l.mapM f = .error e) ↔ ∃ a ∈ l, ∃ e, f a = .error e := by
  induction l with
  | nil => simp [pure, Except.pure]
  | cons a l ih =>
    rw [List.mapM_cons]
    cases ha : f a with
    | error e => simp [ha, bind, Except.bind]
    | ok b =>
      have hcons : (∃ x ∈ a :: l, ∃ e, f x = .error e) ↔ ∃ x ∈ l, ∃ e, f x = .error e := by
        simp [ha]
      rw [hcons, ← ih]
      cases l.mapM f <;> simp [bind, Except.bind, pure, Except.pure]

/-- A traversal raises as soon as one item does. -/
lemma mapM_ne_ok {f : α → Except ε β} {a : α} (ha : a ∈ l) (h : ∀ b, f a ≠ .ok b) :
    l.mapM f ≠ .ok m := by
  intro hm
  obtain ⟨b, -, hb⟩ := exists_right (forall₂_of_mapM hm) ha
  exact h b hb

end Omkit.Lib
