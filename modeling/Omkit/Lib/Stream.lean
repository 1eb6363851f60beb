import Mathlib.Data.List.Basic
import Mathlib.Data.List.Pairwise
import Mathlib.Logic.Function.Basic

/-!
# Streams with consumer groups

A stream is an append-only log whose entries have increasing ids.  A consumer group of a stream
remembers the last id that it has handed out, and the entries that it has handed out and that
nobody has acknowledged.  A read for new entries starts after the last id, so an entry is handed
out to a group at most once, acknowledged or not.
-/

namespace Omkit.Lib

/-- An entry of a stream. -/
structure Entry (α : Type*) where
  id : ℕ
  fields : α

/-- A stream: its entries, oldest first, and the greatest id that it has used. -/
structure Stream (α : Type*) where
  entries : List (Entry α)
  top : ℕ
  sorted : entries.Pairwise fun x y => x.id < y.id
  bound : ∀ x ∈ entries, 0 < x.id ∧ x.id ≤ top

namespace Stream

variable {α : Type*}

/-- The stream without entries. -/
def empty : Stream α := ⟨[], 0, .nil, by simp⟩

/-- `XADD`: the new entry gets an id above all others. -/
def add (s : Stream α) (fields : α) : Stream α where
  entries := s.entries ++ [⟨s.top + 1, fields⟩]
  top := s.top + 1
  sorted := by
    rw [List.pairwise_append]
    refine ⟨s.sorted, List.pairwise_singleton _ _, ?_⟩
    intro x hx y hy
    obtain rfl := List.mem_singleton.mp hy
    exact Nat.lt_succ_of_le (s.bound x hx).2
  bound := by
    intro x hx
    rcases List.mem_append.mp hx with hx | hx
    · have := s.bound x hx
      omega
    · obtain rfl := List.mem_singleton.mp hx
      exact ⟨Nat.succ_pos _, Nat.le_refl _⟩

/-- The first `count` entries after an id. -/
def after (s : Stream α) (last count : ℕ) : List (Entry α) :=
  (s.entries.filter fun x => last < x.id).take count

lemma after_sublist (s : Stream α) (last count : ℕ) : (s.after last count).Sublist s.entries :=
  (List.take_sublist _ _).trans List.filter_sublist

lemma lt_of_mem_after {s : Stream α} {last count : ℕ} {x : Entry α}
    (h : x ∈ s.after last count) : last < x.id := by
  simpa using (List.mem_filter.mp (List.mem_of_mem_take h)).2

lemma after_sorted (s : Stream α) (last count : ℕ) :
    (s.after last count).Pairwise fun x y => x.id < y.id :=
  s.sorted.sublist (s.after_sublist last count)

end Stream

/-- A consumer group: the last id that it has handed out, and the entries that were handed out and
are not acknowledged, with the consumers that they went to. -/
structure Group (ν : Type*) where
  last : ℕ
  pending : List (ℕ × ν)

namespace Group

variable {α ν : Type*}

/-- The group after it has handed out entries to a consumer. -/
def deliver (g : Group ν) (consumer : ν) (l : List (Entry α)) : Group ν where
  last := (l.getLast?).elim g.last Entry.id
  pending := g.pending ++ l.map fun x => (x.id, consumer)

/-- `XACK`. -/
def ack (g : Group ν) (id : ℕ) : Group ν := { g with pending := g.pending.filter fun p => p.1 ≠ id }

variable {g : Group ν} {c : ν} {l : List (Entry α)}

/-- The last id is not below any id that was handed out. -/
lemma le_last_deliver (hl : l.Pairwise fun x y => x.id < y.id) {x : Entry α} (hx : x ∈ l) :
    x.id ≤ (g.deliver c l).last := by
  cases hg : l.getLast? with
  | none =>
    rw [List.getLast?_eq_none_iff.mp hg] at hx
    simp at hx
  | some y =>
    obtain ⟨m, rfl⟩ := List.getLast?_eq_some_iff.mp hg
    simp only [deliver, hg, Option.elim_some]
    rcases List.mem_append.mp hx with hx | hx
    · have := (List.pairwise_append.mp hl).2.2 x hx y (by simp)
      omega
    · obtain rfl := List.mem_singleton.mp hx
      exact Nat.le_refl _

/-- Handing out entries after the last id does not decrease it. -/
lemma last_le_deliver (hl : ∀ x ∈ l, g.last < x.id) : g.last ≤ (g.deliver c l).last := by
  cases hg : l.getLast? with
  | none => simp [deliver, hg]
  | some y =>
    have := hl y (List.mem_of_getLast? hg)
    simp only [deliver, hg, Option.elim_some]
    omega

end Group

/-- The server: its streams, and the groups by the names of their stream and of their own. -/
structure Server (ν α : Type*) where
  streams : ν → Stream α
  groups : ν × ν → Option (Group ν)

namespace Server

variable {ν α : Type*}

/-- A server without entries and groups. -/
def empty : Server ν α := ⟨fun _ => .empty, fun _ => none⟩

/-- The last id that a group has handed out. -/
def last (s : Server ν α) (key : ν × ν) : ℕ := (s.groups key).elim 0 Group.last

variable [DecidableEq ν]

/-- `XADD`. -/
def xadd (s : Server ν α) (stream : ν) (fields : α) : Server ν α :=
  { s with streams := Function.update s.streams stream ((s.streams stream).add fields) }

/-- `XGROUP CREATE … 0 MKSTREAM`, which leaves a group that exists as it is. -/
def xgroupCreate (s : Server ν α) (key : ν × ν) : Server ν α :=
  { s with groups := Function.update s.groups key (some ((s.groups key).getD ⟨0, []⟩)) }

/-- `XREADGROUP … COUNT count … >`: the entries after the last id; `none` if there is no such
group. -/
def xreadgroup (s : Server ν α) (key : ν × ν) (consumer : ν) (count : ℕ) :
    Option (List (Entry α) × Server ν α) :=
  (s.groups key).map fun g =>
    let l := (s.streams key.1).after g.last count
    (l, { s with groups := Function.update s.groups key (some (g.deliver consumer l)) })

/-- `XACK`. -/
def xack (s : Server ν α) (key : ν × ν) (id : ℕ) : Server ν α :=
  { s with groups := Function.update s.groups key ((s.groups key).map fun g => g.ack id) }

variable {s s' : Server ν α} {key : ν × ν}

@[simp] lemma last_xadd (s : Server ν α) (stream : ν) (fields : α) (key : ν × ν) :
    (s.xadd stream fields).last key = s.last key := rfl

@[simp] lemma last_xgroupCreate (s : Server ν α) (key key' : ν × ν) :
    (s.xgroupCreate key).last key' = s.last key' := by
  by_cases h : key' = key
  · subst h
    cases hg : s.groups key' <;> simp [last, xgroupCreate, hg]
  · simp [last, xgroupCreate, h]

@[simp] lemma last_xack (s : Server ν α) (key key' : ν × ν) (id : ℕ) :
    (s.xack key id).last key' = s.last key' := by
  by_cases h : key' = key
  · subst h
    cases hg : s.groups key' <;> simp [last, xack, Group.ack, hg]
  · simp [last, xack, h]

/-- What a read for new entries does: they lie above the last id, which moves up to them. -/
lemma xreadgroup_eq_some {consumer : ν} {count : ℕ} {l : List (Entry α)}
    (h : s.xreadgroup key consumer count = some (l, s')) :
    l.Pairwise (fun x y => x.id < y.id) ∧ (∀ x ∈ l, s.last key < x.id ∧ x.id ≤ s'.last key) ∧
      ∀ key', s.last key' ≤ s'.last key' := by
  obtain ⟨g, hg, he⟩ := Option.map_eq_some_iff.mp h
  obtain ⟨rfl, rfl⟩ := Prod.mk.inj he
  have hlast : s.last key = g.last := by simp [last, hg]
  have hsorted := (s.streams key.1).after_sorted g.last count
  refine ⟨hsorted, fun x hx => ⟨?_, ?_⟩, fun key' => ?_⟩
  · rw [hlast]
    exact Stream.lt_of_mem_after hx
  · simpa [last] using Group.le_last_deliver (g := g) (c := consumer) hsorted hx
  · by_cases hk : key' = key
    · subst hk
      rw [hlast]
      have hnew : ∀ x ∈ (s.streams key'.1).after g.last count, g.last < x.id :=
        fun x hx => Stream.lt_of_mem_after hx
      simpa [last] using Group.last_le_deliver (c := consumer) hnew
    · simp [last, hk]

end Server
end Omkit.Lib
