import Omkit.Lib.Stream

/-!
# Consumer groups whose pending entries change hands

A pending entry of a consumer group has a holder, and the time at which it was handed out last.  A
claim goes over the pending entries from the first one, looks at a bounded number of them, and
hands those that have been idle for long enough to another holder.  What a group has handed out
and what was acknowledged in it is its history, and the group is determined by its history.
-/

namespace Omkit.Lib

/-- A pending entry: who holds it, and since when. -/
structure Loan (ν : Type*) where
  id : ℕ
  holder : ν
  since : ℕ
deriving DecidableEq

/-- A consumer group: the last id that reads have handed out, and the pending entries by id. -/
structure Ledger (ν : Type*) where
  last : ℕ
  loans : List (Loan ν)

/-- What happens in a group: entries are handed out, by a read for new entries or by a claim, or
an id is acknowledged. -/
inductive Deed (ν α : Type*)
  | lent (fresh : Bool) (holder : ν) (now : ℕ) (l : List (Entry α))
  | settled (id : ℕ)

variable {ν α : Type*}

/-- The pending entry in the hands of another holder. -/
def Loan.hand (holder : ν) (now : ℕ) (x : Loan ν) : Loan ν := ⟨x.id, holder, now⟩

@[simp] lemma Loan.hand_id (holder : ν) (now : ℕ) (x : Loan ν) :
    (x.hand holder now).id = x.id := rfl

/-! ## The scan of a claim -/

/-- The scan of `XAUTOCLAIM`: it looks at `attempts` entries at most and moves `count` at most.
The result is what it moves, and the pending entries afterwards. -/
def scan (stale : Loan ν → Bool) (move : Loan ν → Loan ν) :
    ℕ → ℕ → List (Loan ν) → List (Loan ν) × List (Loan ν)
  | attempts + 1, count + 1, x :: l =>
    if stale x then
      let r := scan stale move attempts count l
      (move x :: r.1, move x :: r.2)
    else
      let r := scan stale move attempts (count + 1) l
      (r.1, x :: r.2)
  | _, _, l => ([], l)

section Scan

variable {stale : Loan ν → Bool} {move : Loan ν → Loan ν}

/-- A scan moves the first `count` stale entries among the first `attempts` ones. -/
theorem scan_fst (attempts count : ℕ) (l : List (Loan ν)) :
    (scan stale move attempts count l).1 =
      (((l.take attempts).filter stale).take count).map move := by
  induction l generalizing attempts count with
  | nil => simp [scan]
  | cons x l ih =>
    cases attempts with
    | zero => simp [scan]
    | succ attempts =>
      cases count with
      | zero => simp [scan]
      | succ count =>
        cases hx : stale x with
        | true => simp [scan, hx, ih]
        | false => simp [scan, hx, ih]

/-- Entries keep their places. -/
theorem scan_snd_ids (stale : Loan ν → Bool) (hm : ∀ x, (move x).id = x.id)
    (attempts count : ℕ) (l : List (Loan ν)) :
    (scan stale move attempts count l).2.map Loan.id = l.map Loan.id := by
  induction l generalizing attempts count with
  | nil => simp [scan]
  | cons x l ih =>
    cases attempts with
    | zero => simp [scan]
    | succ attempts =>
      cases count with
      | zero => simp [scan]
      | succ count =>
        cases hx : stale x with
        | true => simp [scan, hx, ih, hm]
        | false => simp [scan, hx, ih]

lemma scan_fst_ids (hm : ∀ x, (move x).id = x.id) (attempts count : ℕ) (l : List (Loan ν)) :
    ((scan stale move attempts count l).1.map Loan.id).Sublist (l.map Loan.id) := by
  rw [scan_fst, List.map_map]
  have hsub : (((l.take attempts).filter stale).take count).Sublist l :=
    (List.take_sublist _ _).trans (List.filter_sublist.trans (List.take_sublist _ _))
  simpa [Function.comp_def, hm] using hsub.map Loan.id

/-- An entry that is pending after a scan was moved by it, or was there before and not moved. -/
lemma mem_scan_snd (hm : ∀ x, (move x).id = x.id) {attempts count : ℕ} {l : List (Loan ν)}
    (hl : l.Pairwise fun x y => x.id < y.id) {y : Loan ν}
    (hy : y ∈ (scan stale move attempts count l).2) :
    y ∈ (scan stale move attempts count l).1 ∨
      y ∈ l ∧ y.id ∉ (scan stale move attempts count l).1.map Loan.id := by
  induction l generalizing attempts count with
  | nil => simp [scan] at hy
  | cons x l ih =>
    obtain ⟨hx, hl⟩ := List.pairwise_cons.mp hl
    cases attempts with
    | zero => exact .inr ⟨by simpa [scan] using hy, by simp [scan]⟩
    | succ attempts =>
      cases count with
      | zero => exact .inr ⟨by simpa [scan] using hy, by simp [scan]⟩
      | succ count =>
        cases hs : stale x with
        | true =>
          simp only [scan, hs, if_true, List.mem_cons] at hy ⊢
          rcases hy with rfl | hy
          · exact .inl (.inl rfl)
          · rcases ih hl hy with hy | ⟨hyl, hne⟩
            · exact .inl (.inr hy)
            · have hlt := hx y hyl
              refine .inr ⟨.inr hyl, ?_⟩
              simp only [List.map_cons, hm, List.mem_cons, not_or]
              exact ⟨by omega, hne⟩
        | false =>
          simp only [scan, hs, Bool.false_eq_true, if_false, List.mem_cons] at hy ⊢
          rcases hy with rfl | hy
          · refine .inr ⟨.inl rfl, fun hmem => ?_⟩
            have hmem := (scan_fst_ids hm _ _ _).subset hmem
            obtain ⟨z, hz, heq⟩ := List.mem_map.mp hmem
            have hlt := hx z hz
            omega
          · rcases ih hl hy with hy | ⟨hyl, hne⟩
            · exact .inl hy
            · exact .inr ⟨.inr hyl, hne⟩

/-- A scan moves the first entry if it is stale. -/
lemma move_mem_scan {x : Loan ν} (hx : stale x = true) {attempts count : ℕ} (ha : 0 < attempts)
    (hc : 0 < count) (l : List (Loan ν)) :
    move x ∈ (scan stale move attempts count (x :: l)).1 := by
  obtain ⟨a, rfl⟩ := Nat.exists_eq_add_one.mpr ha
  obtain ⟨c, rfl⟩ := Nat.exists_eq_add_one.mpr hc
  simp [scan, hx]

/-- A scan over entries the first of which were moved before and are not stale any more. -/
lemma scan_append (move : Loan ν → Loan ν) {fresh old : List (Loan ν)}
    (hf : ∀ x ∈ fresh, stale x = false) (ho : ∀ x ∈ old, stale x = true) (attempts count : ℕ) :
    scan stale move attempts count (fresh ++ old) =
      ((old.take (min (attempts - fresh.length) count)).map move,
        fresh ++ (old.take (min (attempts - fresh.length) count)).map move ++
          old.drop (min (attempts - fresh.length) count)) := by
  induction fresh generalizing attempts with
  | nil =>
    simp only [List.nil_append, List.length_nil, Nat.sub_zero]
    induction old generalizing attempts count with
    | nil => simp [scan]
    | cons x old ih =>
      cases attempts with
      | zero => simp [scan]
      | succ attempts =>
        cases count with
        | zero => simp [scan]
        | succ count =>
          have hx := ho x (by simp)
          have hrest := ih (fun y hy => ho y (by simp [hy])) count attempts
          simp [scan, hx, hrest]
  | cons x fresh ih =>
    cases attempts with
    | zero => simp [scan]
    | succ attempts =>
      cases count with
      | zero => simp [scan]
      | succ count =>
        have hx := hf x (by simp)
        have hrest := ih (fun y hy => hf y (by simp [hy])) attempts
        simp [scan, hx, hrest]

end Scan

/-! ## The commands -/

namespace Ledger

/-- The group that has handed out nothing. -/
def empty : Ledger ν := ⟨0, []⟩

/-- `XREADGROUP … >`: entries go to a consumer. -/
def lend (g : Ledger ν) (holder : ν) (now : ℕ) (l : List (Entry α)) : Ledger ν where
  last := l.getLast?.elim g.last Entry.id
  loans := g.loans ++ l.map fun x => ⟨x.id, holder, now⟩

/-- `XACK`. -/
def settle (g : Ledger ν) (id : ℕ) : Ledger ν :=
  { g with loans := g.loans.filter fun x => x.id ≠ id }

/-- `XAUTOCLAIM … 0-0 COUNT count`: the ids that change hands, and the group afterwards. -/
def reclaim (g : Ledger ν) (stale : Loan ν → Bool) (holder : ν) (now attempts count : ℕ) :
    List ℕ × Ledger ν :=
  let r := scan stale (Loan.hand holder now) attempts count g.loans
  (r.1.map Loan.id, { g with loans := r.2 })

end Ledger

namespace Stream

/-- The entries with given ids. -/
def fetch (s : Stream α) (ids : List ℕ) : List (Entry α) :=
  ids.filterMap fun id => s.entries.find? fun x => x.id == id

/-- The stream has an entry for every id that is fetched. -/
lemma fetch_ids {s : Stream α} {ids : List ℕ} (h : ∀ id ∈ ids, id ∈ s.entries.map Entry.id) :
    (s.fetch ids).map Entry.id = ids := by
  induction ids with
  | nil => rfl
  | cons id ids ih =>
    obtain ⟨x, hx, rfl⟩ := List.mem_map.mp (h id (by simp))
    have hsome : (s.entries.find? fun y => y.id == x.id).isSome := by
      rw [List.find?_isSome]
      exact ⟨x, hx, beq_self_eq_true x.id⟩
    obtain ⟨y, hy⟩ := Option.isSome_iff_exists.mp hsome
    have hid : y.id = x.id := by simpa using List.find?_some hy
    have hrest := ih fun i hi => h i (by simp [hi])
    simp only [fetch] at hrest ⊢
    simp [hy, hid, hrest]

lemma mem_fetch {s : Stream α} {ids : List ℕ} {x : Entry α} (hx : x ∈ s.entries)
    (hid : x.id ∈ ids) : x ∈ s.fetch ids := by
  refine List.mem_filterMap.mpr ⟨x.id, hid, ?_⟩
  have hsorted := s.sorted
  generalize s.entries = l at hx hsorted
  induction l with
  | nil => simp at hx
  | cons y l ih =>
    obtain ⟨hy, hl⟩ := List.pairwise_cons.mp hsorted
    rcases List.mem_cons.mp hx with rfl | hx
    · simp
    · have hne : ¬ y.id = x.id := Nat.ne_of_lt (hy x hx)
      simp [hne, ih hx hl]

lemma mem_of_mem_fetch {s : Stream α} {ids : List ℕ} {x : Entry α} (h : x ∈ s.fetch ids) :
    x ∈ s.entries := by
  obtain ⟨id, -, hx⟩ := List.mem_filterMap.mp h
  exact List.mem_of_find?_eq_some hx

end Stream

/-! ## Histories -/

/-- The entries that a deed hands out for the first time. -/
def Deed.fresh : Deed ν α → List (Entry α)
  | lent true _ _ l => l
  | _ => []

/-- The ids that a deed hands out. -/
def Deed.ids : Deed ν α → List ℕ
  | lent _ _ _ l => l.map Entry.id
  | settled _ => []

/-- What the reads of a group have handed out. -/
def readOut (h : List (Deed ν α)) : List (Entry α) := h.flatMap Deed.fresh

/-- The ids that a group has handed out, by reads and by claims. -/
def lentIds (h : List (Deed ν α)) : List ℕ := h.flatMap Deed.ids

/-- The id was acknowledged after it had been handed out. -/
def Settled (h : List (Deed ν α)) (id : ℕ) : Prop :=
  ∃ h₁ h₂, h = h₁ ++ .settled id :: h₂ ∧ id ∈ lentIds h₁

/-- Whom the id was handed to last, and when. -/
def lastHand (h : List (Deed ν α)) (id : ℕ) : Option (ν × ℕ) :=
  h.foldl (fun o d => match d with
    | .lent _ holder now l => if id ∈ l.map Entry.id then some (holder, now) else o
    | .settled _ => o) none

section Histories

variable {h h₁ h₂ : List (Deed ν α)} {d e : Deed ν α} {id : ℕ}

@[simp] lemma readOut_concat : readOut (h ++ [d]) = readOut h ++ d.fresh := by
  simp [readOut]

@[simp] lemma lentIds_concat : lentIds (h ++ [d]) = lentIds h ++ d.ids := by
  simp [lentIds]

lemma lentIds_append : lentIds (h₁ ++ h₂) = lentIds h₁ ++ lentIds h₂ := by
  simp [lentIds]

@[simp] lemma lastHand_settled : lastHand (h ++ [.settled id]) = lastHand h := by
  funext i
  simp [lastHand]

lemma lastHand_lent {fresh : Bool} {holder : ν} {now : ℕ} {l : List (Entry α)} :
    lastHand (h ++ [.lent fresh holder now l]) id =
      if id ∈ l.map Entry.id then some (holder, now) else lastHand h id := by
  simp [lastHand]

/-- A place in a history with one more deed is the new end or a place in the old history. -/
lemma concat_eq_append_cons :
    h ++ [e] = h₁ ++ d :: h₂ ↔
      (h₁ = h ∧ d = e ∧ h₂ = []) ∨ ∃ h₃, h₂ = h₃ ++ [e] ∧ h = h₁ ++ d :: h₃ := by
  constructor
  · intro heq
    rcases List.eq_nil_or_concat h₂ with rfl | ⟨h₃, d', rfl⟩
    · obtain ⟨rfl, hd⟩ := List.append_inj' heq rfl
      exact .inl ⟨rfl, (List.singleton_inj.mp hd).symm, rfl⟩
    · have heq' : h ++ [e] = (h₁ ++ d :: h₃) ++ [d'] := by simpa using heq
      obtain ⟨rfl, hd⟩ := List.append_inj' heq' rfl
      exact .inr ⟨h₃, by simp [List.singleton_inj.mp hd], rfl⟩
  · rintro (⟨rfl, rfl, rfl⟩ | ⟨h₃, rfl, rfl⟩) <;> simp

lemma settled_concat :
    Settled (h ++ [d]) id ↔ Settled h id ∨ d = .settled id ∧ id ∈ lentIds h := by
  constructor
  · rintro ⟨h₁, h₂, heq, hid⟩
    rcases concat_eq_append_cons.mp heq with ⟨rfl, rfl, -⟩ | ⟨h₃, -, rfl⟩
    · exact .inr ⟨rfl, hid⟩
    · exact .inl ⟨h₁, h₃, rfl, hid⟩
  · rintro (⟨h₁, h₂, rfl, hid⟩ | ⟨rfl, hid⟩)
    · exact ⟨h₁, h₂ ++ [d], by simp, hid⟩
    · exact ⟨h, [], rfl, hid⟩

lemma Settled.mem_lentIds (hs : Settled h id) : id ∈ lentIds h := by
  obtain ⟨h₁, h₂, rfl, hid⟩ := hs
  rw [lentIds_append]
  exact List.mem_append_left _ hid

end Histories

/-- A group of a stream and its history agree. -/
structure Account (s : Stream α) (g : Ledger ν) (h : List (Deed ν α)) : Prop where
  last_le : g.last ≤ s.top
  /-- The reads have handed out a beginning of the stream. -/
  reads : readOut h = s.entries.filter fun x => x.id ≤ g.last
  /-- Claims hand out only what a read has handed out. -/
  lent : ∀ id ∈ lentIds h, id ∈ (readOut h).map Entry.id
  sorted : g.loans.Pairwise fun x y => x.id < y.id
  /-- Pending is what was handed out and not acknowledged since. -/
  pending : ∀ id, id ∈ g.loans.map Loan.id ↔ id ∈ lentIds h ∧ ¬ Settled h id
  hands : ∀ x ∈ g.loans, lastHand h x.id = some (x.holder, x.since)
  /-- What was acknowledged is not handed out again. -/
  closed : ∀ h₁ id h₂, h = h₁ ++ .settled id :: h₂ → id ∈ lentIds h₁ → id ∉ lentIds h₂

/-! ## Reading a sorted list up to a bound -/

section Sorted

variable {l : List (Entry α)} {a b : ℕ}

lemma filter_le_append (hl : l.Pairwise fun x y => x.id < y.id) (hab : a ≤ b) :
    (l.filter fun x => x.id ≤ b) =
      (l.filter fun x => x.id ≤ a) ++ (l.filter fun x => a < x.id).filter fun x => x.id ≤ b := by
  induction l with
  | nil => rfl
  | cons x l ih =>
    obtain ⟨hx, hl⟩ := List.pairwise_cons.mp hl
    by_cases hxa : x.id ≤ a
    · have hxb : x.id ≤ b := by omega
      simp [hxa, hxb, Nat.not_lt.mpr hxa, ih hl]
    · have hnone : (l.filter fun x => x.id ≤ a) = [] := by
        rw [List.filter_eq_nil_iff]
        intro y hy
        have := hx y hy
        simp only [decide_eq_true_eq]
        omega
      have hall : (l.filter fun x => a < x.id) = l := by
        rw [List.filter_eq_self]
        intro y hy
        have := hx y hy
        simp only [decide_eq_true_eq]
        omega
      have hax : a < x.id := by omega
      simp [hxa, hax, hnone, hall]

/-- The first entries of a sorted list are those up to the last one of them. -/
lemma take_eq_filter (hl : l.Pairwise fun x y => x.id < y.id) (ha : ∀ x ∈ l, a < x.id) (n : ℕ) :
    l.take n = l.filter fun x => x.id ≤ (l.take n).getLast?.elim a Entry.id := by
  have hsplit := List.take_append_drop n l
  cases hg : (l.take n).getLast? with
  | none =>
    rw [List.getLast?_eq_none_iff.mp hg, eq_comm, List.filter_eq_nil_iff]
    intro x hx
    have hlt := ha x hx
    show ¬ decide (x.id ≤ a) = true
    rw [decide_eq_true_eq]
    omega
  | some y =>
    obtain ⟨m, hm⟩ := List.getLast?_eq_some_iff.mp hg
    have hp : ((m ++ [y]) ++ l.drop n).Pairwise fun x y => x.id < y.id := by
      rwa [← hm, hsplit]
    obtain ⟨hleft, -, hacross⟩ := List.pairwise_append.mp hp
    have hkeep : ((m ++ [y]).filter fun x => x.id ≤ y.id) = m ++ [y] := by
      rw [List.filter_eq_self]
      intro x hx
      rcases List.mem_append.mp hx with hx | hx
      · have := (List.pairwise_append.mp hleft).2.2 x hx y (by simp)
        simp only [decide_eq_true_eq]
        omega
      · simp [List.mem_singleton.mp hx]
    have hdrop : ((l.drop n).filter fun x => x.id ≤ y.id) = [] := by
      rw [List.filter_eq_nil_iff]
      intro x hx
      have := hacross y (by simp) x hx
      simp only [decide_eq_true_eq]
      omega
    show l.take n = l.filter fun x => x.id ≤ y.id
    calc l.take n = m ++ [y] := hm
      _ = ((m ++ [y]) ++ l.drop n).filter fun x => x.id ≤ y.id := by
        rw [List.filter_append, hkeep, hdrop, List.append_nil]
      _ = l.filter fun x => x.id ≤ y.id := by rw [← hm, hsplit]

end Sorted

/-! ## What the commands do to an account -/

section Account

variable {s : Stream α} {g : Ledger ν} {h : List (Deed ν α)}

/-- A new group, of a stream that may have entries already. -/
lemma Account.empty (s : Stream α) : Account s (Ledger.empty : Ledger ν) [] where
  last_le := Nat.zero_le _
  reads := by
    rw [eq_comm]
    refine List.filter_eq_nil_iff.mpr fun x hx => ?_
    have hpos := (s.bound x hx).1
    simpa [Ledger.empty, Nat.pos_iff_ne_zero] using hpos
  lent := by simp [lentIds]
  sorted := .nil
  pending := by simp [Ledger.empty, lentIds]
  hands := by simp [Ledger.empty]
  closed := by simp

lemma Account.mem_entries (hA : Account s g h) {x : Entry α} (hx : x ∈ readOut h) :
    x ∈ s.entries ∧ x.id ≤ g.last := by
  rw [hA.reads] at hx
  simpa using hx

lemma Account.lent_le (hA : Account s g h) {id : ℕ} (hid : id ∈ lentIds h) : id ≤ g.last := by
  obtain ⟨x, hx, rfl⟩ := List.mem_map.mp (hA.lent id hid)
  exact (hA.mem_entries hx).2

/-- The ids that were handed out are those of the entries that the reads have reached. -/
lemma Account.mem_lentIds (hA : Account s g h) {id : ℕ} :
    id ∈ lentIds h ↔ ∃ x ∈ s.entries, x.id = id ∧ x.id ≤ g.last := by
  constructor
  · intro hid
    obtain ⟨x, hx, rfl⟩ := List.mem_map.mp (hA.lent id hid)
    exact ⟨x, (hA.mem_entries hx).1, rfl, (hA.mem_entries hx).2⟩
  · rintro ⟨x, hx, rfl, hle⟩
    have hread : x ∈ readOut h := by
      rw [hA.reads]
      simpa using ⟨hx, hle⟩
    obtain ⟨d, hd, hxd⟩ := List.mem_flatMap.mp hread
    refine List.mem_flatMap.mpr ⟨d, hd, ?_⟩
    cases d with
    | settled id => simp [Deed.fresh] at hxd
    | lent fresh holder now l =>
      cases fresh with
      | false => simp [Deed.fresh] at hxd
      | true => exact List.mem_map_of_mem hxd

lemma Account.add (hA : Account s g h) (fields : α) : Account (s.add fields) g h where
  last_le := Nat.le_succ_of_le hA.last_le
  reads := by
    have hnew : ¬ s.top + 1 ≤ g.last := by
      have := hA.last_le
      omega
    simp [Stream.add, hA.reads, hnew]
  lent := hA.lent
  sorted := hA.sorted
  pending := hA.pending
  hands := hA.hands
  closed := hA.closed

lemma Account.read (hA : Account s g h) (holder : ν) (now count : ℕ) :
    Account s (g.lend holder now (s.after g.last count))
      (h ++ [.lent true holder now (s.after g.last count)]) := by
  have hsorted := s.after_sorted g.last count
  have hnew : ∀ x ∈ s.after g.last count, g.last < x.id := fun x hx => Stream.lt_of_mem_after hx
  have hentries : ∀ x ∈ s.after g.last count, x ∈ s.entries :=
    fun x hx => (s.after_sublist _ _).subset hx
  have hold : ∀ id ∈ lentIds h, id ∉ (s.after g.last count).map Entry.id := by
    intro id hid hmem
    obtain ⟨x, hx, rfl⟩ := List.mem_map.mp hmem
    have := hnew x hx
    have := hA.lent_le hid
    omega
  have hloan : ∀ x ∈ g.loans, x.id ∈ lentIds h := fun x hx =>
    ((hA.pending x.id).mp (List.mem_map_of_mem hx)).1
  have hle : g.last ≤ (g.lend holder now (s.after g.last count)).last := by
    simp only [Ledger.lend]
    cases hg : (s.after g.last count).getLast? with
    | none => simp
    | some y =>
      have := hnew y (List.mem_of_getLast? hg)
      simp only [Option.elim_some]
      omega
  refine ⟨?_, ?_, ?_, ?_, ?_, ?_, ?_⟩
  · simp only [Ledger.lend]
    cases hg : (s.after g.last count).getLast? with
    | none => simpa using hA.last_le
    | some y => exact (s.bound y (hentries y (List.mem_of_getLast? hg))).2
  · have hall : ∀ x ∈ s.entries.filter fun x => g.last < x.id, g.last < x.id :=
      fun x hx => by simpa using (List.mem_filter.mp hx).2
    rw [filter_le_append s.sorted hle, readOut_concat, hA.reads]
    congr 1
    exact take_eq_filter (s.sorted.sublist List.filter_sublist) hall count
  · intro id hid
    rw [lentIds_concat, List.mem_append] at hid
    rw [readOut_concat, List.map_append, List.mem_append]
    exact hid.imp_left (hA.lent id)
  · rw [Ledger.lend, List.pairwise_append]
    refine ⟨hA.sorted, ?_, ?_⟩
    · rw [List.pairwise_map]
      exact hsorted
    · intro x hx y hy
      obtain ⟨z, hz, rfl⟩ := List.mem_map.mp hy
      have := hA.lent_le (hloan x hx)
      have := hnew z hz
      show x.id < z.id
      omega
  · intro id
    have hids : (g.lend holder now (s.after g.last count)).loans.map Loan.id =
        g.loans.map Loan.id ++ (s.after g.last count).map Entry.id := by
      simp [Ledger.lend, Function.comp_def]
    have hnot : ¬ (Deed.lent (α := α) true holder now (s.after g.last count) = .settled id ∧
        id ∈ lentIds h) := by simp
    rw [hids, List.mem_append, hA.pending, lentIds_concat, List.mem_append, settled_concat,
      or_iff_left hnot]
    constructor
    · rintro (⟨hid, hs⟩ | hid)
      · exact ⟨.inl hid, hs⟩
      · exact ⟨.inr hid, fun hs => hold id hs.mem_lentIds hid⟩
    · rintro ⟨hid | hid, hs⟩
      · exact .inl ⟨hid, hs⟩
      · exact .inr hid
  · intro x hx
    rw [lastHand_lent]
    rcases List.mem_append.mp hx with hx | hx
    · rw [if_neg (hold x.id (hloan x hx)), hA.hands x hx]
    · obtain ⟨y, hy, rfl⟩ := List.mem_map.mp hx
      rw [if_pos (List.mem_map_of_mem hy)]
  · intro h₁ id h₂ heq hid
    rcases concat_eq_append_cons.mp heq with ⟨rfl, hd, rfl⟩ | ⟨h₃, rfl, rfl⟩
    · simp at hd
    · rw [lentIds_concat, List.mem_append, not_or]
      refine ⟨hA.closed h₁ id h₃ rfl hid, hold id ?_⟩
      rw [lentIds_append]
      exact List.mem_append_left _ hid

lemma Account.settle (hA : Account s g h) (id : ℕ) :
    Account s (g.settle id) (h ++ [.settled id]) where
  last_le := hA.last_le
  reads := by
    rw [readOut_concat, Deed.fresh, List.append_nil]
    · exact hA.reads
    · simp
  lent := by simpa [Deed.fresh, Deed.ids] using hA.lent
  sorted := hA.sorted.filter _
  pending := by
    intro i
    have hfilter : i ∈ (g.settle id).loans.map Loan.id ↔ i ∈ g.loans.map Loan.id ∧ i ≠ id := by
      simp only [Ledger.settle, List.mem_map, List.mem_filter, decide_eq_true_eq]
      constructor
      · rintro ⟨x, ⟨hx, hne⟩, rfl⟩
        exact ⟨⟨x, hx, rfl⟩, hne⟩
      · rintro ⟨⟨x, hx, rfl⟩, hne⟩
        exact ⟨x, ⟨hx, hne⟩, rfl⟩
    rw [hfilter, hA.pending, lentIds_concat, settled_concat, Deed.ids, List.append_nil]
    constructor
    · rintro ⟨⟨hid, hs⟩, hne⟩
      exact ⟨hid, not_or.mpr ⟨hs, fun hd => hne (Deed.settled.inj hd.1).symm⟩⟩
    · rintro ⟨hid, hs⟩
      refine ⟨⟨hid, fun h' => hs (.inl h')⟩, ?_⟩
      rintro rfl
      exact hs (.inr ⟨rfl, hid⟩)
  hands := by
    intro x hx
    rw [lastHand_settled]
    exact hA.hands x (List.mem_filter.mp hx).1
  closed := by
    intro h₁ i h₂ heq hid
    rcases concat_eq_append_cons.mp heq with ⟨-, -, rfl⟩ | ⟨h₃, rfl, rfl⟩
    · simp [lentIds]
    · rw [lentIds_concat, Deed.ids, List.append_nil]
      exact hA.closed h₁ i h₃ rfl hid

/-- The ids that a claim hands out are pending. -/
lemma reclaim_ids_subset (stale : Loan ν → Bool) (holder : ν) (now attempts count : ℕ) {id : ℕ}
    (hid : id ∈ (g.reclaim stale holder now attempts count).1) : id ∈ g.loans.map Loan.id :=
  (scan_fst_ids (Loan.hand_id holder now) _ _ _).subset hid

/-- A claim hands out the entries of the ids that it takes. -/
lemma Account.fetch_reclaim (hA : Account s g h) (stale : Loan ν → Bool) (holder : ν)
    (now attempts count : ℕ) :
    (s.fetch (g.reclaim stale holder now attempts count).1).map Entry.id =
      (g.reclaim stale holder now attempts count).1 := by
  refine Stream.fetch_ids fun id hid => ?_
  have hlent := ((hA.pending id).mp (reclaim_ids_subset _ _ _ _ _ hid)).1
  obtain ⟨x, hx, rfl, -⟩ := hA.mem_lentIds.mp hlent
  exact List.mem_map_of_mem hx

lemma Account.reclaim (hA : Account s g h) (stale : Loan ν → Bool) (holder : ν)
    (now attempts count : ℕ) :
    Account s (g.reclaim stale holder now attempts count).2
      (h ++ [.lent false holder now
        (s.fetch (g.reclaim stale holder now attempts count).1)]) := by
  have hfetch := hA.fetch_reclaim stale holder now attempts count
  have hids := scan_snd_ids stale (Loan.hand_id holder now) attempts count g.loans
  have hpending : ∀ id ∈ (g.reclaim stale holder now attempts count).1,
      id ∈ lentIds h ∧ ¬ Settled h id := fun id hid =>
    (hA.pending id).mp (reclaim_ids_subset _ _ _ _ _ hid)
  have hsettled : ∀ id, Settled (h ++ [.lent false holder now
      (s.fetch (g.reclaim stale holder now attempts count).1)]) id ↔ Settled h id := by
    intro id
    rw [settled_concat, or_iff_left (by simp)]
  refine ⟨hA.last_le, ?_, ?_, ?_, ?_, ?_, ?_⟩
  · rw [readOut_concat, Deed.fresh, List.append_nil]
    · exact hA.reads
    · simp
  · intro id hid
    rw [lentIds_concat, List.mem_append, Deed.ids, hfetch] at hid
    rw [readOut_concat, Deed.fresh, List.append_nil]
    · rcases hid with hid | hid
      · exact hA.lent id hid
      · exact hA.lent id (hpending id hid).1
    · simp
  · have hs :
        ((g.reclaim stale holder now attempts count).2.loans.map Loan.id).Pairwise (· < ·) := by
      show ((scan _ _ _ _ _).2.map Loan.id).Pairwise (· < ·)
      rw [hids, List.pairwise_map]
      exact hA.sorted
    exact List.pairwise_map.mp hs
  · intro id
    have hloans : (g.reclaim stale holder now attempts count).2.loans.map Loan.id =
        g.loans.map Loan.id := hids
    rw [hloans, hA.pending, hsettled, lentIds_concat, List.mem_append, Deed.ids, hfetch]
    constructor
    · exact fun hid => ⟨.inl hid.1, hid.2⟩
    · rintro ⟨hid | hid, hs⟩
      · exact ⟨hid, hs⟩
      · exact ⟨(hpending id hid).1, hs⟩
  · intro x hx
    rw [lastHand_lent, hfetch]
    rcases mem_scan_snd (Loan.hand_id holder now) hA.sorted hx with hx | ⟨hx, hne⟩
    · have hmem : x.id ∈ (g.reclaim stale holder now attempts count).1 := List.mem_map_of_mem hx
      rw [scan_fst] at hx
      obtain ⟨y, -, rfl⟩ := List.mem_map.mp hx
      rw [if_pos hmem]
      rfl
    · have hmem : x.id ∉ (g.reclaim stale holder now attempts count).1 := hne
      rw [if_neg hmem, hA.hands x hx]
  · intro h₁ id h₂ heq hid
    rcases concat_eq_append_cons.mp heq with ⟨rfl, hd, rfl⟩ | ⟨h₃, rfl, rfl⟩
    · simp at hd
    · rw [lentIds_concat, List.mem_append, not_or, Deed.ids, hfetch]
      refine ⟨hA.closed h₁ id h₃ rfl hid, fun hmem => (hpending id hmem).2 ⟨h₁, h₃, rfl, hid⟩⟩

end Account
end Omkit.Lib
