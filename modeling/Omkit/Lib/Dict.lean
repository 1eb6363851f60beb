import Mathlib.Data.List.Nodup
import Mathlib.Data.List.Basic
import Mathlib.Tactic.Common
import Mathlib.Tactic.Tauto

/-!
# Insertion-ordered dictionaries

The dictionaries of a scripting language: a finite map whose items keep the order in which their
keys were first inserted.  Assigning to a present key keeps its place, deleting forgets it.
-/

namespace Omkit.Lib

/-- A dictionary: its items in insertion order, no key twice. -/
structure Dict (κ ν : Type*) where
  /-- The items, oldest key first. -/
  items : List (κ × ν)
  nodup : (items.map Prod.fst).Nodup

namespace Dict

variable {κ ν : Type*}

/-- The keys in insertion order. -/
def keys (d : Dict κ ν) : List κ := d.items.map Prod.fst

/-- The empty dictionary. -/
def empty : Dict κ ν := ⟨[], by simp⟩

@[simp] lemma keys_empty : (empty : Dict κ ν).keys = [] := rfl

lemma nodup_keys (d : Dict κ ν) : d.keys.Nodup := d.nodup

lemma mem_keys {d : Dict κ ν} {k : κ} : k ∈ d.keys ↔ ∃ v, (k, v) ∈ d.items := by
  simp [keys]

lemma keys_mem_of_mem {d : Dict κ ν} {p : κ × ν} (h : p ∈ d.items) : p.1 ∈ d.keys :=
  List.mem_map_of_mem h

variable [DecidableEq κ]

/-- `d.get(k)`. -/
def get? (d : Dict κ ν) (k : κ) : Option ν := d.items.lookup k

/-- `d[k] = v`. -/
def set (d : Dict κ ν) (k : κ) (v : ν) : Dict κ ν where
  items := if k ∈ d.keys then d.items.map fun p => if p.1 = k then (k, v) else p
    else d.items ++ [(k, v)]
  nodup := by
    split
    · have : (d.items.map fun p => if p.1 = k then (k, v) else p).map Prod.fst
          = d.items.map Prod.fst := by
        rw [List.map_map]
        apply List.map_congr_left
        intro p _
        by_cases h : p.1 = k <;> simp [h]
      rw [this]
      exact d.nodup
    · rename_i hk
      rw [List.map_append, List.nodup_append]
      refine ⟨d.nodup, by simp, ?_⟩
      intro a ha b hb
      obtain rfl : b = k := by simpa using hb
      exact fun hab => hk (hab ▸ ha)

/-- `d.pop(k, None)`, and `del d[k]` for a present key. -/
def pop (d : Dict κ ν) (k : κ) : Dict κ ν where
  items := d.items.filter fun p => p.1 ≠ k
  nodup := d.nodup.sublist (List.filter_sublist.map _)

/-- The dictionary comprehension over a list of pairs: a later pair replaces the value of an
earlier one with the same key. -/
def ofList (l : List (κ × ν)) : Dict κ ν := l.foldl (fun d p => d.set p.1 p.2) empty

/-! ## Lookups -/

lemma lookup_eq_some {l : List (κ × ν)} (h : (l.map Prod.fst).Nodup) {k : κ} {v : ν} :
    l.lookup k = some v ↔ (k, v) ∈ l := by
  induction l with
  | nil => simp
  | cons p l ih =>
    obtain ⟨a, b⟩ := p
    simp only [List.map_cons, List.nodup_cons] at h
    by_cases hk : k = a
    · subst hk
      have hnot : (k, v) ∉ l := fun hm => h.1 (List.mem_map_of_mem hm)
      simp only [List.lookup_cons, beq_self_eq_true, List.mem_cons, Prod.mk.injEq, true_and]
      exact ⟨fun hv => Or.inl (Option.some.inj hv).symm,
        fun hv => hv.elim (fun e => by rw [e]) (fun hm => absurd hm hnot)⟩
    · simp only [List.lookup_cons, beq_eq_false_iff_ne.mpr hk, List.mem_cons, Prod.mk.injEq, hk,
        false_and, false_or]
      exact ih h.2

lemma get?_eq_some {d : Dict κ ν} {k : κ} {v : ν} : d.get? k = some v ↔ (k, v) ∈ d.items :=
  lookup_eq_some d.nodup

lemma get?_eq_none {d : Dict κ ν} {k : κ} : d.get? k = none ↔ k ∉ d.keys := by
  constructor
  · intro h hk
    obtain ⟨v, hv⟩ := mem_keys.mp hk
    exact absurd (get?_eq_some.mpr hv) (by simp [h])
  · intro h
    rw [Option.eq_none_iff_forall_ne_some]
    intro v hv
    exact h (mem_keys.mpr ⟨v, get?_eq_some.mp hv⟩)

lemma mem_keys_iff_get? {d : Dict κ ν} {k : κ} : k ∈ d.keys ↔ ∃ v, d.get? k = some v := by
  simp [mem_keys, get?_eq_some]

@[simp] lemma get?_empty (k : κ) : (empty : Dict κ ν).get? k = none := rfl

lemma mem_set {d : Dict κ ν} {k : κ} {v : ν} {p : κ × ν} :
    p ∈ (d.set k v).items ↔ p = (k, v) ∨ (p ∈ d.items ∧ p.1 ≠ k) := by
  obtain ⟨a, b⟩ := p
  by_cases hk : k ∈ d.keys
  · -- a present key keeps its place
    have hitems : (d.set k v).items = d.items.map fun p => if p.1 = k then (k, v) else p := by
      simp [set, hk]
    rw [hitems, List.mem_map]
    constructor
    · rintro ⟨⟨a', b'⟩, hmem, he⟩
      by_cases ha : a' = k
      · left
        simpa [ha] using he.symm
      · right
        simp only [ha, if_false] at he
        obtain ⟨rfl, rfl⟩ := Prod.mk.inj he
        exact ⟨hmem, ha⟩
    · rintro (he | ⟨hmem, ha⟩)
      · obtain ⟨w, hw⟩ := mem_keys.mp hk
        exact ⟨(k, w), hw, by simp [he]⟩
      · refine ⟨(a, b), hmem, ?_⟩
        exact if_neg ha
  · -- a new key is the youngest
    have hitems : (d.set k v).items = d.items ++ [(k, v)] := by simp [set, hk]
    rw [hitems, List.mem_append, List.mem_singleton]
    constructor
    · rintro (hmem | he)
      · exact Or.inr ⟨hmem, fun ha => hk (ha ▸ keys_mem_of_mem hmem)⟩
      · exact Or.inl he
    · rintro (he | ⟨hmem, -⟩)
      · exact Or.inr he
      · exact Or.inl hmem

lemma mem_pop {d : Dict κ ν} {k : κ} {p : κ × ν} :
    p ∈ (d.pop k).items ↔ p ∈ d.items ∧ p.1 ≠ k := by
  simp [pop]

lemma get?_set (d : Dict κ ν) (k : κ) (v : ν) (k' : κ) :
    (d.set k v).get? k' = if k' = k then some v else d.get? k' := by
  ext w
  rw [get?_eq_some, mem_set]
  by_cases h : k' = k
  · subst h
    simp [eq_comm]
  · simp [h, get?_eq_some]

@[simp] lemma get?_set_self (d : Dict κ ν) (k : κ) (v : ν) : (d.set k v).get? k = some v := by
  simp [get?_set]

lemma get?_set_ne (d : Dict κ ν) {k k' : κ} (v : ν) (h : k' ≠ k) :
    (d.set k v).get? k' = d.get? k' := by
  simp [get?_set, h]

lemma get?_pop (d : Dict κ ν) (k k' : κ) :
    (d.pop k).get? k' = if k' = k then none else d.get? k' := by
  ext w
  rw [get?_eq_some, mem_pop]
  by_cases h : k' = k <;> simp [h, get?_eq_some]

@[simp] lemma get?_pop_self (d : Dict κ ν) (k : κ) : (d.pop k).get? k = none := by
  simp [get?_pop]

lemma get?_pop_ne (d : Dict κ ν) {k k' : κ} (h : k' ≠ k) : (d.pop k).get? k' = d.get? k' := by
  simp [get?_pop, h]

lemma get?_pop_eq_some {d : Dict κ ν} {k k' : κ} {v : ν} :
    (d.pop k).get? k' = some v ↔ k' ≠ k ∧ d.get? k' = some v := by
  rw [get?_pop]
  split
  · next heq => simp [heq]
  · next hne => simp [hne]

@[simp] lemma mem_keys_set {d : Dict κ ν} {k k' : κ} {v : ν} :
    k' ∈ (d.set k v).keys ↔ k' = k ∨ k' ∈ d.keys := by
  simp only [mem_keys_iff_get?, get?_set]
  by_cases h : k' = k <;> simp [h]

@[simp] lemma mem_keys_pop {d : Dict κ ν} {k k' : κ} :
    k' ∈ (d.pop k).keys ↔ k' ∈ d.keys ∧ k' ≠ k := by
  simp only [mem_keys_iff_get?, get?_pop]
  by_cases h : k' = k <;> simp [h]

/-- Deleting a key forgets what was assigned to it. -/
@[simp] lemma pop_set (d : Dict κ ν) (k : κ) (v : ν) : (d.set k v).pop k = d.pop k := by
  have hitems : ((d.set k v).pop k).items = (d.pop k).items := by
    by_cases hk : k ∈ d.keys
    · simp only [pop, set, hk, if_true, List.filter_map]
      rw [List.map_congr_left (g := id), List.map_id]
      · congr 1
        ext p
        by_cases hp : p.1 = k <;> simp [hp]
      · intro p hp
        have hne : p.1 ≠ k := by
          have := List.of_mem_filter hp
          by_contra heq
          simp [heq] at this
        simp [hne]
    · simp [pop, set, hk]
  cases hd : (d.set k v).pop k
  cases hd' : d.pop k
  simp_all

@[simp] lemma pop_empty (k : κ) : (empty : Dict κ ν).pop k = empty := rfl

/-! ## Comprehensions -/

lemma foldl_set_get? (l : List (κ × ν)) (d : Dict κ ν) (k : κ) (hk : k ∉ l.map Prod.fst) :
    (l.foldl (fun d p => d.set p.1 p.2) d).get? k = d.get? k := by
  induction l generalizing d with
  | nil => rfl
  | cons p l ih =>
    simp only [List.map_cons, List.mem_cons, not_or] at hk
    rw [List.foldl_cons, ih _ hk.2, get?_set_ne _ _ hk.1]

lemma mem_foldl_set {l : List (κ × ν)} {d : Dict κ ν} {p : κ × ν}
    (h : p ∈ (l.foldl (fun d p => d.set p.1 p.2) d).items) : p ∈ l ∨ p ∈ d.items := by
  induction l generalizing d with
  | nil => exact Or.inr h
  | cons q l ih =>
    rcases ih h with hl | hd
    · exact Or.inl (List.mem_cons_of_mem _ hl)
    · rcases mem_set.mp hd with rfl | ⟨hd, -⟩
      · exact Or.inl List.mem_cons_self
      · exact Or.inr hd

/-- Every item of a comprehension is one of the pairs it was built from. -/
lemma mem_of_mem_ofList {l : List (κ × ν)} {p : κ × ν} (h : p ∈ (ofList l).items) : p ∈ l := by
  rcases mem_foldl_set h with hl | he
  · exact hl
  · simp [empty] at he

lemma foldl_set_mem {l : List (κ × ν)} (hl : (l.map Prod.fst).Nodup) {d : Dict κ ν} {p : κ × ν}
    (hp : p ∈ l) : p ∈ (l.foldl (fun d p => d.set p.1 p.2) d).items := by
  induction l generalizing d with
  | nil => simp at hp
  | cons q l ih =>
    simp only [List.map_cons, List.nodup_cons] at hl
    rcases List.mem_cons.mp hp with rfl | hp
    · obtain ⟨k, v⟩ := p
      rw [List.foldl_cons, ← get?_eq_some, foldl_set_get? _ _ _ hl.1, get?_set_self]
    · exact ih hl.2 hp

/-- Over pairs with distinct keys a comprehension has exactly these pairs as its items. -/
lemma mem_ofList {l : List (κ × ν)} (hl : (l.map Prod.fst).Nodup) {p : κ × ν} :
    p ∈ (ofList l).items ↔ p ∈ l :=
  ⟨mem_of_mem_ofList, foldl_set_mem hl⟩

lemma mem_keys_foldl_set {l : List (κ × ν)} {d : Dict κ ν} {k : κ} :
    k ∈ (l.foldl (fun d p => d.set p.1 p.2) d).keys ↔ k ∈ d.keys ∨ k ∈ l.map Prod.fst := by
  induction l generalizing d with
  | nil => simp
  | cons p l ih =>
    rw [List.foldl_cons, ih, mem_keys_set, List.map_cons, List.mem_cons]
    tauto

/-- The keys of a comprehension are those of its pairs. -/
@[simp] lemma mem_keys_ofList {l : List (κ × ν)} {k : κ} :
    k ∈ (ofList l).keys ↔ k ∈ l.map Prod.fst := by
  simp [ofList, mem_keys_foldl_set]

lemma items_foldl_set {l : List (κ × ν)} {d : Dict κ ν}
    (h : (d.keys ++ l.map Prod.fst).Nodup) :
    (l.foldl (fun d p => d.set p.1 p.2) d).items = d.items ++ l := by
  induction l generalizing d with
  | nil => simp
  | cons p l ih =>
    have hp : p.1 ∉ d.keys := fun hk =>
      (List.disjoint_of_nodup_append h) hk (by simp)
    have hset : (d.set p.1 p.2).items = d.items ++ [p] := by simp [set, hp]
    rw [List.foldl_cons, ih, hset, List.append_assoc, List.singleton_append]
    have hkeys : (d.set p.1 p.2).keys = d.keys ++ [p.1] := by simp [keys, hset]
    rw [hkeys, List.append_assoc]
    simpa using h

/-- Over pairs with distinct keys a comprehension keeps the list as it is. -/
lemma items_ofList {l : List (κ × ν)} (hl : (l.map Prod.fst).Nodup) : (ofList l).items = l := by
  rw [ofList, items_foldl_set (by simpa using hl)]
  rfl

lemma items_set_map {μ : Type*} {f : ν → μ} {d : Dict κ ν} {d' : Dict κ μ}
    (h : d'.items = d.items.map fun p => (p.1, f p.2)) (k : κ) (v : ν) :
    (d'.set k (f v)).items = (d.set k v).items.map fun p => (p.1, f p.2) := by
  have hkeys : d'.keys = d.keys := by
    rw [keys, keys, h, List.map_map]
    rfl
  by_cases hk : k ∈ d.keys
  · simp only [set, hkeys, hk, if_true, h, List.map_map]
    apply List.map_congr_left
    intro p _
    by_cases hp : p.1 = k <;> simp [hp]
  · simp [set, hkeys, hk, h]

lemma items_foldl_set_map {μ : Type*} {f : ν → μ} {l : List (κ × ν)} {d : Dict κ ν} {d' : Dict κ μ}
    (h : d'.items = d.items.map fun p => (p.1, f p.2)) :
    ((l.map fun p => (p.1, f p.2)).foldl (fun d p => d.set p.1 p.2) d').items =
      (l.foldl (fun d p => d.set p.1 p.2) d).items.map fun p => (p.1, f p.2) := by
  induction l generalizing d d' with
  | nil => exact h
  | cons p l ih => exact ih (items_set_map h p.1 p.2)

/-- The values of a comprehension may be mapped before or after. -/
lemma items_ofList_map {μ : Type*} (f : ν → μ) (l : List (κ × ν)) :
    (ofList (l.map fun p => (p.1, f p.2))).items = (ofList l).items.map fun p => (p.1, f p.2) :=
  items_foldl_set_map rfl

end Dict
end Omkit.Lib
