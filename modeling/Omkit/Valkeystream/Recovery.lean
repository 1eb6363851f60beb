import Omkit.Valkeystream.Delivery
import Omkit.Valkeystream.Wire

/-!
# Claims of stale entries

Every claim starts at the first pending entry of the group and looks at ten times as many entries
as it may hand out.  An entry that was claimed keeps its place, so until it is acknowledged it is
looked at again by every claim.
-/

namespace Omkit.Valkeystream

open Lib

variable {ι : Type} {env : Env} {cs : ι → StreamConsumer} {s s' : State ι} {key : PyStr × PyStr}

/-- The entries that count as stale. -/
def stale (env : Env) (now idleMs : ℕ) (x : Loan PyStr) : Bool := env.aged (now - x.since) idleMs

/-- Claimed entries keep their places. -/
lemma claim_ids (c : StreamConsumer) (now idleMs : ℕ) (g : Ledger PyStr) :
    (claim env c now idleMs g).2.loans.map Loan.id = g.loans.map Loan.id :=
  scan_snd_ids _ (Loan.hand_id _ _) _ _ _

/-- A claim, by the consumer that makes it, in a group that exists. -/
lemma claim_step {i : ι} {idleMs : ℕ} {arrived : Bool} (hg : (s.groups (cs i).key).isSome)
    (hs : step env cs s (.claimStale i idleMs arrived) = some s') :
    ∃ r l, r = claim env (cs i) s.now idleMs (s.group (cs i).key) ∧
      l = (s.streams (cs i).stream).fetch r.1 ∧
      s' = (s.regroup (cs i).key r.2).note
        (.claimed i s.now idleMs l (outcome env (cs i) l arrived)) := by
  obtain ⟨g, hg⟩ := Option.isSome_iff_exists.mp hg
  have hgroup : s.group (cs i).key = g := by simp [State.group, hg]
  simp only [step, hg] at hs
  obtain rfl := Option.some.inj hs
  subst hgroup
  exact ⟨_, _, rfl, rfl, rfl⟩

/-- **What a claim hands out**: of the first `10 * count` pending entries those that are stale, and
of these the first `count`.  All of them have been handed to somebody and were not acknowledged
since, and their new holder is the consumer that claims. -/
theorem claim_reach (h : (machine env cs).Reachable s) {i : ι} {idleMs : ℕ} {arrived : Bool}
    (hg : (s.groups (cs i).key).isSome)
    (hs : step env cs s (.claimStale i idleMs arrived) = some s') :
    ∃ l : List (Entry Raw),
      s'.history cs (cs i).key =
        s.history cs (cs i).key ++ [.lent false (cs i).consumer s.now l] ∧
      l.map Entry.id = ((((s.group (cs i).key).loans.take (10 * (cs i).count)).filter
        (stale env s.now idleMs)).take (cs i).count).map Loan.id ∧
      (∀ x ∈ l, x ∈ (s.streams (cs i).stream).entries ∧
        x.id ∈ lentIds (s.history cs (cs i).key) ∧ ¬ Settled (s.history cs (cs i).key) x.id ∧
        ⟨x.id, (cs i).consumer, s.now⟩ ∈ (s'.group (cs i).key).loans) ∧
      (s'.group (cs i).key).loans.map Loan.id = (s.group (cs i).key).loans.map Loan.id := by
  have hA : Account (s.streams (cs i).key.1) (s.group (cs i).key) (s.history cs (cs i).key) :=
    sound_of_reachable h _
  have hstep : (machine env cs).step s (.claimStale i idleMs arrived) = some s' := hs
  have hA' : Account (s'.streams (cs i).key.1) (s'.group (cs i).key)
      (s'.history cs (cs i).key) := sound_of_reachable (h.step hstep) _
  obtain ⟨r, l, hr, hl, rfl⟩ := claim_step hg hs
  have hids : l.map Entry.id = r.1 := by
    rw [hl, hr]
    exact hA.fetch_reclaim _ _ _ _ _
  have hfst : r.1 = ((((s.group (cs i).key).loans.take (10 * (cs i).count)).filter
      (stale env s.now idleMs)).take (cs i).count).map Loan.id := by
    rw [hr]
    simp only [claim, Ledger.reclaim, scan_fst, List.map_map]
    rfl
  have hhist : ((s.regroup (cs i).key r.2).note (.claimed i s.now idleMs l
      (outcome env (cs i) l arrived))).history cs (cs i).key =
        s.history cs (cs i).key ++ [.lent false (cs i).consumer s.now l] := by
    rw [history_note, history_regroup]
    simp [Obs.deed]
  have hkeep : r.2.loans.map Loan.id = (s.group (cs i).key).loans.map Loan.id := by
    rw [hr, claim_ids]
  refine ⟨l, hhist, hids.trans hfst, fun x hx => ?_, by simpa using hkeep⟩
  have hmem : x.id ∈ r.1 := hids ▸ List.mem_map_of_mem hx
  have hpending : x.id ∈ (s.group (cs i).key).loans.map Loan.id := by
    rw [hr] at hmem
    exact reclaim_ids_subset _ _ _ _ _ hmem
  have hnow := (hA.pending x.id).mp hpending
  refine ⟨Stream.mem_of_mem_fetch (hl ▸ hx), hnow.1, hnow.2, ?_⟩
  simp only [group_note, group_regroup_self]
  rw [← hkeep] at hpending
  obtain ⟨y, hy, hid⟩ := List.mem_map.mp hpending
  have hlast : lastHand (s.history cs (cs i).key ++ [.lent false (cs i).consumer s.now l]) x.id =
      some ((cs i).consumer, s.now) := by
    rw [lastHand_lent, if_pos (List.mem_map_of_mem hx)]
  have hhand := hA'.hands y (by simpa using hy)
  rw [hhist, hid, hlast] at hhand
  obtain ⟨hh, hn⟩ := Prod.mk.inj (Option.some.inj hhand)
  rw [hh, hn, ← hid]
  exact hy

theorem claim_reach_sample : ∃ s s' : State Bool, (machine sampleEnv sampleConsumers).Reachable s ∧
    step sampleEnv sampleConsumers s (.claimStale true 3 true) = some s' ∧
      ⟨1, text "b", 5⟩ ∈ (s'.group (text "s", text "g")).loans := by
  obtain ⟨s, hs, hentries, hgroup, hnow⟩ := exists_sample
  have hg : s.group (text "s", text "g") = ⟨1, [⟨1, text "a", 0⟩]⟩ := by simp [State.group, hgroup]
  have hkey : (sampleConsumers true).key = (text "s", text "g") := rfl
  obtain ⟨s', hstep⟩ :
      ∃ s', step sampleEnv sampleConsumers s (.claimStale true 3 true) = some s' := by
    simp [step, hkey, hgroup]
  obtain ⟨l, -, hl, hall, -⟩ := claim_reach hs (by rw [hkey, hgroup]; rfl) hstep
  refine ⟨s, s', hs, hstep, ?_⟩
  rw [hkey, hg, hnow] at hl
  have hids : l.map Entry.id = [1] := hl.trans (by decide)
  obtain ⟨x, rfl, hx⟩ : ∃ x, l = [x] ∧ x.id = 1 := by
    obtain ⟨x, hx, hid⟩ := List.map_eq_singleton_iff.mp hids
    exact ⟨x, hx, hid⟩
  have hmem := (hall x (by simp)).2.2.2
  rw [hx, hnow] at hmem
  exact hmem

/-! ## Claims without acknowledgements -/

/-- The actions of a stretch in which nothing happens in a group but claims of `n` entries with one
minimum idle time. -/
def OnlyClaims (cs : ι → StreamConsumer) (key : PyStr × PyStr) (idleMs n : ℕ) : Action ι → Prop
  | .claimStale i idle _ => (cs i).key = key → idle = idleMs ∧ (cs i).count = n
  | .read i _ => (cs i).key ≠ key
  | .ack i _ _ => (cs i).key ≠ key
  | _ => True

/-- The claims in a group. -/
def isClaim (cs : ι → StreamConsumer) (key : PyStr × PyStr) : Action ι → Bool
  | .claimStale i _ _ => (cs i).key = key
  | _ => false

/-- Of the pending entries at the start of a stretch, the first `m` were claimed in it and no other
ones. -/
structure Walked (cs : ι → StreamConsumer) (key : PyStr × PyStr) (s : State ι) (m : ℕ)
    (t : State ι) : Prop where
  now_le : s.now ≤ t.now
  here : (t.groups key).isSome
  walked : ∃ fresh, (t.group key).loans = fresh ++ (s.group key).loans.drop m ∧
    fresh.map Loan.id = ((s.group key).loans.take m).map Loan.id ∧ ∀ x ∈ fresh, s.now ≤ x.since
  lent : lentIds (t.history cs key) =
    lentIds (s.history cs key) ++ ((s.group key).loans.take m).map Loan.id

lemma now_le_of_step {a : Action ι} (h : step env cs s a = some s') : s.now ≤ s'.now := by
  cases a with
  | xadd stream raw =>
    obtain rfl := Option.some.inj h
    exact Nat.le_refl _
  | tick d =>
    obtain rfl := Option.some.inj h
    exact Nat.le_add_right _ _
  | ensureGroup i reached =>
    simp only [step] at h
    split at h <;> (obtain rfl := Option.some.inj h; exact Nat.le_refl _)
  | read i arrived =>
    simp only [step] at h
    split at h <;> (obtain rfl := Option.some.inj h; exact Nat.le_refl _)
  | ack i id reached =>
    simp only [step] at h
    split at h
    · obtain rfl := Option.some.inj h
      exact Nat.le_refl _
    · split at h <;> (obtain rfl := Option.some.inj h; exact Nat.le_refl _)
  | claimStale i idleMs arrived =>
    simp only [step] at h
    split at h <;> (obtain rfl := Option.some.inj h; exact Nat.le_refl _)

lemma now_le_of_run {es : List (Action ι)} (h : (machine env cs).run s es = some s') :
    s.now ≤ s'.now := by
  induction es generalizing s with
  | nil =>
    obtain rfl : s = s' := by simpa using h
    exact Nat.le_refl _
  | cons a es ih =>
    obtain ⟨t, ht, h⟩ := Machine.run_cons.mp h
    exact (now_le_of_step ht).trans (ih h)

/-- A group stays. -/
lemma isSome_of_step {a : Action ι} (h : step env cs s a = some s')
    (hg : (s.groups key).isSome) : (s'.groups key).isSome := by
  have hregroup : ∀ k g, ((s.regroup k g).groups key).isSome := by
    intro k g
    by_cases hk : key = k
    · subst hk
      simp [State.regroup]
    · simpa [State.regroup, hk] using hg
  cases a with
  | xadd stream raw =>
    obtain rfl := Option.some.inj h
    exact hg
  | tick d =>
    obtain rfl := Option.some.inj h
    exact hg
  | ensureGroup i reached =>
    simp only [step] at h
    split at h
    · obtain rfl := Option.some.inj h
      exact hregroup _ _
    · obtain rfl := Option.some.inj h
      exact hg
  | read i arrived =>
    simp only [step] at h
    split at h
    · obtain rfl := Option.some.inj h
      exact hg
    · obtain rfl := Option.some.inj h
      exact hregroup _ _
  | ack i id reached =>
    simp only [step] at h
    split at h
    · obtain rfl := Option.some.inj h
      exact hg
    · split at h
      · obtain rfl := Option.some.inj h
        exact hregroup _ _
      · obtain rfl := Option.some.inj h
        exact hg
  | claimStale i idleMs arrived =>
    simp only [step] at h
    split at h
    · obtain rfl := Option.some.inj h
      exact hg
    · obtain rfl := Option.some.inj h
      exact hregroup _ _

/-- How the server compares idle times: what is not idle for long enough is not stale, and what is
stale stays so. -/
structure Env.Lawful (env : Env) : Prop where
  fresh : ∀ idle least, idle < least → env.aged idle least = false
  mono : ∀ idle idle' least, idle ≤ idle' → env.aged idle least = true →
    env.aged idle' least = true

/-- The next claim walks on, up to ten times `n` entries. -/
lemma Walked.claim {t t' : State ι} {idleMs n m : ℕ} (hA : (t.view cs key).Sound)
    (hw : Walked cs key s m t) (henv : env.Lawful)
    (hstale : ∀ x ∈ (s.group key).loans, stale env s.now idleMs x = true)
    (hnow : t.now < s.now + idleMs) {i : ι} {arrived : Bool} (hk : (cs i).key = key)
    (hn : (cs i).count = n) (hs : step env cs t (.claimStale i idleMs arrived) = some t') :
    Walked cs key s (m + min (10 * n - m) n) t' := by
  obtain ⟨fresh, hloans, hids, hsince⟩ := hw.walked
  have hA : Account (t.streams key.1) (t.group key) (t.history cs key) := hA
  subst hk hn
  obtain ⟨r, l, hr, hl, rfl⟩ := claim_step hw.here hs
  have hle := hw.now_le
  have hold : ∀ x ∈ (s.group (cs i).key).loans.drop m, stale env t.now idleMs x = true := by
    intro x hx
    refine henv.mono _ _ _ ?_ (hstale x (List.mem_of_mem_drop hx))
    omega
  have hfresh : ∀ x ∈ fresh, stale env t.now idleMs x = false := by
    intro x hx
    refine henv.fresh _ _ ?_
    have := hsince x hx
    omega
  have hlen : fresh.length = min m (s.group (cs i).key).loans.length := by
    have := congrArg List.length hids
    simpa using this
  have hscan := scan_append (Loan.hand (cs i).consumer t.now) hfresh hold
    (10 * (cs i).count) (cs i).count
  -- beyond the last pending entry it does not matter how far the claim could go
  have hwindow : min (10 * (cs i).count - fresh.length) (cs i).count =
      min (10 * (cs i).count - m) (cs i).count ∨ (s.group (cs i).key).loans.drop m = [] := by
    rcases Nat.le_total m (s.group (cs i).key).loans.length with hm | hm
    · rw [hlen, Nat.min_eq_left hm]
      exact .inl rfl
    · exact .inr (List.drop_eq_nil_of_le hm)
  set k := min (10 * (cs i).count - m) (cs i).count with hk
  set rest := (s.group (cs i).key).loans.drop m with hrest
  have hscan' : scan (stale env t.now idleMs) (Loan.hand (cs i).consumer t.now)
      (10 * (cs i).count) (cs i).count (t.group (cs i).key).loans =
        ((rest.take k).map (Loan.hand (cs i).consumer t.now),
          fresh ++ (rest.take k).map (Loan.hand (cs i).consumer t.now) ++ rest.drop k) := by
    rw [hloans, hscan]
    rcases hwindow with hw | hw
    · rw [hw]
    · rw [hw]
      simp
  have hr1 : r.1 = (rest.take k).map Loan.id := by
    rw [hr]
    show (scan (stale env t.now idleMs) _ _ _ _).1.map Loan.id = _
    rw [hscan', List.map_map]
    rfl
  have hr2 : r.2.loans =
      fresh ++ (rest.take k).map (Loan.hand (cs i).consumer t.now) ++ rest.drop k := by
    rw [hr]
    show (scan (stale env t.now idleMs) _ _ _ _).2 = _
    rw [hscan']
  have htake : ((s.group (cs i).key).loans.take (m + k)).map Loan.id =
      ((s.group (cs i).key).loans.take m).map Loan.id ++ (rest.take k).map Loan.id := by
    rw [List.take_add, List.map_append]
  refine ⟨hle, isSome_of_step hs hw.here, ⟨fresh ++ (rest.take k).map
    (Loan.hand (cs i).consumer t.now), ?_, ?_, ?_⟩, ?_⟩
  · simp only [group_note, group_regroup_self]
    rw [hr2, hrest, List.drop_drop]
  · rw [List.map_append, hids, htake, List.map_map]
    rfl
  · intro x hx
    rcases List.mem_append.mp hx with hx | hx
    · exact hsince x hx
    · obtain ⟨y, -, rfl⟩ := List.mem_map.mp hx
      exact hle
  · have hdeed : Obs.deed cs (cs i).key (.claimed i t.now idleMs l (outcome env (cs i) l arrived)) =
        some (.lent false (cs i).consumer t.now l) := if_pos rfl
    have hfetch : l.map Entry.id = r.1 := by
      rw [hl, hr]
      exact hA.fetch_reclaim _ _ _ _ _
    rw [history_note, history_regroup, hdeed, Option.toList_some, lentIds_concat, hw.lent, htake,
      Deed.ids, hfetch, hr1, List.append_assoc]

/-- A step that is no claim in the group leaves what was walked. -/
lemma Walked.other {t t' : State ι} {idleMs n m : ℕ} (hw : Walked cs key s m t) {a : Action ι}
    (ha : OnlyClaims cs key idleMs n a) (hc : isClaim cs key a = false)
    (hs : step env cs t a = some t') : Walked cs key s m t' := by
  have hkeep : t'.group key = t.group key ∧ t'.history cs key = t.history cs key := by
    have hchange := change_of_step hs key
    generalize hv : t'.view cs key = v at hchange
    cases hchange with
    | keep => exact ⟨congrArg View.group hv, congrArg View.history hv⟩
    | add => exact ⟨congrArg View.group hv, congrArg View.history hv⟩
    | read hi => exact absurd hi ha
    | settle hi => exact absurd hi ha
    | claim hi => simp [isClaim, hi] at hc
  refine ⟨hw.now_le.trans (now_le_of_step hs), isSome_of_step hs hw.here, ?_, ?_⟩
  · rw [hkeep.1]
    exact hw.walked
  · rw [hkeep.2]
    exact hw.lent

lemma Walked.run {es : List (Action ι)} {t t' : State ι} {idleMs n k : ℕ}
    (ht : (machine env cs).Reachable t) (hw : Walked cs key s (min (k * n) (10 * n)) t)
    (henv : env.Lawful) (hstale : ∀ x ∈ (s.group key).loans, stale env s.now idleMs x = true)
    (hes : ∀ a ∈ es, OnlyClaims cs key idleMs n a)
    (hrun : (machine env cs).run t es = some t') (hnow : t'.now < s.now + idleMs) :
    Walked cs key s (min ((k + es.countP (isClaim cs key)) * n) (10 * n)) t' := by
  induction es generalizing t k with
  | nil =>
    obtain rfl : t = t' := by simpa using hrun
    simpa using hw
  | cons a es ih =>
    obtain ⟨u, hu, hrest⟩ := Machine.run_cons.mp hrun
    have hes' : ∀ b ∈ es, OnlyClaims cs key idleMs n b := fun b hb => hes b (by simp [hb])
    have ha := hes a (by simp)
    cases hc : isClaim cs key a with
    | false =>
      have hw' := ih (ht.step hu) (hw.other ha hc hu) hes' hrest
      simpa [List.countP_cons, hc] using hw'
    | true =>
      cases a with
      | claimStale i idle arrived =>
        have hk : (cs i).key = key := by simpa [isClaim] using hc
        obtain ⟨rfl, hn⟩ := ha hk
        have hstep : step env cs t (.claimStale i idle arrived) = some u := hu
        have hle := (now_le_of_step hstep).trans (now_le_of_run hrest)
        have hw' := hw.claim (sound_of_reachable ht key) henv hstale (by omega) hk hn hstep
        -- the claim takes the walk from `k * n` to `(k + 1) * n`, unless it is at its end
        have hnext : min (k * n) (10 * n) + min (10 * n - min (k * n) (10 * n)) n =
            min ((k + 1) * n) (10 * n) := by
          rw [Nat.add_mul, Nat.one_mul]
          omega
        rw [hnext] at hw'
        have hcount : (Action.claimStale i idle arrived :: es).countP (isClaim cs key) =
            es.countP (isClaim cs key) + 1 := by simp [hc]
        rw [hcount, Nat.add_comm _ 1, ← Nat.add_assoc]
        exact ih (ht.step hu) hw' hes' hrest
      | _ => simp [isClaim] at hc

/-- **Claims reach ten times `count` entries within one idle time**: if all pending entries are
stale, and for less than the idle time there are claims and no acknowledgements, then `k` claims,
by whichever consumers, hand out each of the first `min (k * n) (10 * n)` pending entries once, in
order, and none of the others, however many claims there are. -/
theorem claims_reach (h : (machine env cs).Reachable s) (henv : env.Lawful)
    (key : PyStr × PyStr) (hg : (s.groups key).isSome) {idleMs n : ℕ}
    (hstale : ∀ x ∈ (s.group key).loans, stale env s.now idleMs x = true) {es : List (Action ι)}
    (hes : ∀ a ∈ es, OnlyClaims cs key idleMs n a)
    (hrun : (machine env cs).run s es = some s') (hnow : s'.now < s.now + idleMs) :
    lentIds (s'.history cs key) = lentIds (s.history cs key) ++ ((s.group key).loans.take
      (min (es.countP (isClaim cs key) * n) (10 * n))).map Loan.id := by
  have hstart : Walked cs key s (min (0 * n) (10 * n)) s := by
    refine ⟨Nat.le_refl _, hg, ⟨[], ?_, ?_, ?_⟩, ?_⟩ <;> simp
  have hw := hstart.run h henv hstale hes hrun hnow
  rw [Nat.zero_add] at hw
  exact hw.lent

/-- Eleven claims of one entry each hand out ten of the twelve entries that are pending. -/
theorem claims_reach_sample : ∃ s s' : State Bool, (machine sampleEnv sampleConsumers).Reachable s ∧
    (s.group (text "s", text "g")).loans.length = 12 ∧
    (machine sampleEnv sampleConsumers).run s (List.replicate 11 (.claimStale true 3 true)) =
      some s' ∧
    lentIds (s'.history sampleConsumers (text "s", text "g")) =
      lentIds (s.history sampleConsumers (text "s", text "g")) ++
        ((s.group (text "s", text "g")).loans.take 10).map Loan.id := by
  obtain ⟨s, hrun, hgroup, hlen, hstale, s', hclaims, hnow⟩ : ∃ s, (machine sampleEnv
      sampleConsumers).run State.initial (sampleCrowd ++ [.read false true, .tick 5]) = some s ∧
      (s.groups (text "s", text "g")).isSome ∧ (s.group (text "s", text "g")).loans.length = 12 ∧
      (∀ x ∈ (s.group (text "s", text "g")).loans, stale sampleEnv s.now 3 x = true) ∧
      ∃ s', (machine sampleEnv sampleConsumers).run s
        (List.replicate 11 (.claimStale true 3 true)) = some s' ∧ s'.now < s.now + 3 :=
    ⟨_, rfl, rfl, rfl, by decide, _, rfl, by decide⟩
  have hs := (Machine.Reachable.init rfl).run hrun
  have henv : sampleEnv.Lawful := by
    refine ⟨fun idle least h => ?_, fun idle idle' least h h' => ?_⟩
    · simpa [sampleEnv] using h
    · simp only [sampleEnv, decide_eq_true_eq] at h' ⊢
      omega
  have hes : ∀ a ∈ List.replicate 11 (Action.claimStale true 3 true),
      OnlyClaims sampleConsumers (text "s", text "g") 3 1 a := by
    intro a ha
    obtain rfl := List.eq_of_mem_replicate ha
    exact fun _ => ⟨rfl, rfl⟩
  exact ⟨s, s', hs, hlen, hclaims,
    claims_reach hs henv (text "s", text "g") hgroup hstale hes hclaims hnow⟩

/-! ## An entry that no consumer can read -/

/-- The first pending entry of a group stays there until it is acknowledged. -/
lemma first_of_step {t : State ι} {a : Action ι} {id : ℕ}
    (h : ((s.group key).loans.head?).map Loan.id = some id)
    (ha : ∀ i, a = .ack i id true → (cs i).key ≠ key) (hs : step env cs s a = some t) :
    ((t.group key).loans.head?).map Loan.id = some id := by
  have hchange := change_of_step hs key
  have hview : (t.group key) = (t.view cs key).group := rfl
  rw [hview]
  generalize t.view cs key = v at hchange
  obtain ⟨y, hy, hid⟩ := Option.map_eq_some_iff.mp h
  obtain ⟨rest, hloans⟩ : ∃ rest, (s.group key).loans = y :: rest := by
    cases hl : (s.group key).loans with
    | nil => simp [hl] at hy
    | cons z rest =>
      obtain rfl : z = y := by simpa [hl] using hy
      exact ⟨rest, rfl⟩
  cases hchange with
  | keep => exact h
  | add => exact h
  | read hi hl =>
    show ((s.group key).lend _ _ _).loans.head?.map Loan.id = some id
    simp [Ledger.lend, hloans, hid]
  | settle hi =>
    rename_i i id'
    have hne : id ≠ id' := fun heq => ha i (heq ▸ rfl) hi
    show ((s.group key).settle id').loans.head?.map Loan.id = some id
    simp [Ledger.settle, hloans, hid, hne]
  | claim hi hr =>
    subst hr
    rw [← List.head?_map] at h ⊢
    rw [claim_ids]
    exact h

lemma first_of_run {t : State ι} {es : List (Action ι)} {id : ℕ}
    (h : ((s.group key).loans.head?).map Loan.id = some id)
    (hes : ∀ a ∈ es, ∀ i, a = .ack i id true → (cs i).key ≠ key)
    (hrun : (machine env cs).run s es = some t) :
    ((t.group key).loans.head?).map Loan.id = some id := by
  induction es generalizing s with
  | nil =>
    obtain rfl : s = t := by simpa using hrun
    exact h
  | cons a es ih =>
    obtain ⟨u, hu, hrest⟩ := Machine.run_cons.mp hrun
    exact ih (first_of_step h (hes a (by simp)) hu) (fun b hb => hes b (by simp [hb])) hrest

/-- An entry stays in its stream. -/
lemma mem_entries_of_run {t : State ι} {es : List (Action ι)} {x : Entry Raw}
    (h : x ∈ (s.streams key.1).entries) (hrun : (machine env cs).run s es = some t) :
    x ∈ (t.streams key.1).entries := by
  induction es generalizing s with
  | nil =>
    obtain rfl : s = t := by simpa using hrun
    exact h
  | cons a es ih =>
    obtain ⟨u, hu, hrest⟩ := Machine.run_cons.mp hrun
    refine ih ?_ hrest
    have hchange : Change env cs key s.now (s.view cs key) a (u.view cs key) :=
      change_of_step hu key
    show x ∈ (u.view cs key).stream.entries
    generalize u.view cs key = v at hchange
    cases hchange with
    | add => exact List.mem_append_left _ h
    | _ => exact h

/-- **An entry that no consumer can read bars the way to all others.**  Once it is the first pending
entry of its group, and as long as nobody acknowledges it, every claim of it raises: it is handed
out with up to `count - 1` other entries, none of which is returned.  So a claim returns only
within the idle time of the last one that took the entry. -/
theorem unreadable_bars (h : (machine env cs).Reachable s) {x : Entry Raw}
    (hx : x ∈ (s.streams key.1).entries) (hu : Unreadable x)
    (hfirst : ((s.group key).loans.head?).map Loan.id = some x.id) {es : List (Action ι)}
    {t : State ι} (hes : ∀ a ∈ es, ∀ i, a = .ack i x.id true → (cs i).key ≠ key)
    (hrun : (machine env cs).run s es = some t) :
    ∃ holder since, lastHand (t.history cs key) x.id = some (holder, since) ∧
      ∀ i idleMs arrived t', (cs i).key = key → env.aged (t.now - since) idleMs = true →
        step env cs t (.claimStale i idleMs arrived) = some t' →
        ∃ l o, t'.log = t.log ++ [.claimed i t.now idleMs l o] ∧ x ∈ l ∧
          l.length ≤ (cs i).count ∧ ∀ ms, o ≠ .returned ms := by
  have ht := h.run hrun
  have hA : Account (t.streams key.1) (t.group key) (t.history cs key) := sound_of_reachable ht key
  have hxt := mem_entries_of_run hx hrun
  obtain ⟨y, hy, hid⟩ := Option.map_eq_some_iff.mp (first_of_run hfirst hes hrun)
  have hmem : y ∈ (t.group key).loans := List.mem_of_mem_head? hy
  have hhand := hA.hands y hmem
  rw [hid] at hhand
  refine ⟨y.holder, y.since, hhand, ?_⟩
  rintro i idleMs arrived t' rfl haged hs
  have hg : (t.groups (cs i).key).isSome := by
    by_contra hnone
    have : t.groups (cs i).key = none := by simpa using hnone
    simp [State.group, this, Ledger.empty] at hmem
  obtain ⟨r, l, hr, hl, rfl⟩ := claim_step hg hs
  have hids : x.id ∈ r.1 := by
    obtain ⟨rest, hloans⟩ : ∃ rest, (t.group (cs i).key).loans = y :: rest := by
      cases hl : (t.group (cs i).key).loans with
      | nil => simp [hl] at hy
      | cons z rest =>
        obtain rfl : z = y := by simpa [hl] using hy
        exact ⟨rest, rfl⟩
    have hcount := (cs i).count_pos
    rw [hr, ← hid]
    show y.id ∈ (scan _ _ _ _ _).1.map Loan.id
    rw [hloans]
    exact List.mem_map.mpr ⟨_, move_mem_scan haged (by omega) hcount rest, rfl⟩
  have hxl : x ∈ l := hl ▸ Stream.mem_fetch hxt hids
  have hlen : l.length ≤ (cs i).count := by
    have hfetch : l.map Entry.id = r.1 := by
      rw [hl, hr]
      exact hA.fetch_reclaim _ _ _ _ _
    rw [← List.length_map (f := Entry.id), hfetch, hr]
    simp only [claim, Ledger.reclaim, scan_fst, List.length_map]
    exact List.length_take_le _ _
  refine ⟨l, outcome env (cs i) l arrived, rfl, hxl, hlen, fun ms => ?_⟩
  cases arrived with
  | false => simp [outcome]
  | true =>
    cases hf : flatten env.wire (cs i).decoding l with
    | ok ms' => exact absurd hf (flatten_unreadable hxl hu ms')
    | error e => simp [outcome, hf]

/-- The entry of a claim whose reply was lost makes the next claim raise. -/
theorem unreadable_bars_sample : ∃ t t' : State Bool,
    (machine sampleEnv sampleConsumers).Reachable t ∧
    step sampleEnv sampleConsumers t (.claimStale true 3 true) = some t' ∧
    ∃ x l o, Unreadable x ∧ t'.log = t.log ++ [.claimed true t.now 3 l o] ∧ x ∈ l ∧
      l.length ≤ 1 ∧ ∀ ms, o ≠ .returned ms := by
  obtain ⟨s, hrun, hentries, hloans, t, hclaim, hlast, hnow, t', hstep⟩ : ∃ s, (machine sampleEnv
      sampleConsumers).run State.initial sampleRun = some s ∧
      (s.streams (text "s")).entries = [⟨1, [([255], [1])]⟩] ∧
      (s.group (text "s", text "g")).loans = [⟨1, text "a", 0⟩] ∧
      ∃ t, (machine sampleEnv sampleConsumers).run s [.claimStale true 3 false, .tick 4] = some t ∧
      lastHand (t.history sampleConsumers (text "s", text "g")) 1 = some (text "b", 5) ∧
      t.now = 9 ∧
      ∃ t', step sampleEnv sampleConsumers t (.claimStale true 3 true) = some t' :=
    ⟨_, rfl, rfl, rfl, _, rfl, rfl, rfl, _, rfl⟩
  have hs := (Machine.Reachable.init rfl).run hrun
  have hx : (⟨1, [([255], [1])]⟩ : Entry Raw) ∈ (s.streams (text "s", text "g").1).entries := by
    simp [hentries]
  have hu : Unreadable ⟨1, [([255], [1])]⟩ := ⟨([255], [1]), by simp, by decide⟩
  obtain ⟨holder, since, hhand, hbars⟩ :=
    unreadable_bars hs hx hu (by rw [hloans]; rfl) (by simp) hclaim
  -- the claim whose reply was lost took the entry at the time 5
  obtain ⟨-, rfl⟩ := Prod.mk.inj (Option.some.inj (hhand.symm.trans hlast))
  obtain ⟨l, o, hlog, hmem, hlen, ho⟩ :=
    hbars true 3 true t' rfl (by rw [hnow]; rfl) hstep
  exact ⟨t, t', hs.run hclaim, hstep, _, l, o, hu, hlog, hmem, hlen, ho⟩

end Omkit.Valkeystream
