import Omkit.Lib.Dict
import Omkit.Lib.Machine
import Omkit.Lib.Text
import Omkit.Quota
import Mathlib.Data.Rat.Defs
import Mathlib.Data.List.Count

/-!
# The quota of a month over whole runs

Requests of any number of tenants, interleaved in any way: each loads its limits, counts what the
tenant has used, and is checked; one that is let through writes its row at some later time, if at
all.  Between the count and the row other requests may be counted, so that a tenant can go over its
limit, by as many requests as it has in flight besides.
-/

namespace Omkit.Quota

open Lib

/-! ## The tables -/

/-- A row of `usage_log`; `tenant_id` is the number of the UUID. -/
structure UsageRow where
  tenantId : ℕ
  provider : PyStr
  model : PyStr
  inputTokens : ℤ
  outputTokens : ℤ
  costUsd : ℚ
  createdAt : ℤ
deriving DecidableEq

/-- A row of `document_files`. -/
structure DocumentFile where
  tenantId : ℕ
  sizeBytes : ℤ

/-- The tables; `tenant_quotas` has at most one row for each tenant. -/
structure Tables where
  tenantQuotas : Dict ℕ Limits
  documentFiles : List DocumentFile
  usageLog : List UsageRow

/-- `date_trunc('month', t)` in the time zone of the sessions. -/
class Server where
  truncMonth : ℤ → ℤ
  truncMonth_mono : Monotone truncMonth

/-- `DEFAULT_DOCS`, `DEFAULT_STORAGE_BYTES` and `DEFAULT_QUERIES_PER_MONTH`. -/
def defaultLimits : Limits := ⟨100, 500 * 1024 * 1024, 1000⟩

/-- `load`, in a session of the tenant. -/
def load (db : Tables) (tenantId : ℕ) : Limits := (db.tenantQuotas.get? tenantId).getD defaultLimits

section

variable [Server]

/-- The rows of `usage_log` that row-level security shows to the tenant, since the start of the
month. -/
def Tables.used (db : Tables) (now : ℤ) (tenantId : ℕ) : ℕ :=
  db.usageLog.countP fun r => r.tenantId = tenantId ∧ Server.truncMonth now ≤ r.createdAt

/-- `get_usage`, in a session of the tenant; if its query of `usage_log` fails, it counts none.
`now()` is the time at which the transaction began. -/
def getUsage (db : Tables) (now : ℤ) (tenantId : ℕ) (counted : Bool) : Usage :=
  let files := db.documentFiles.filter fun f => f.tenantId = tenantId
  { docs := files.length
    storageBytes := (files.map DocumentFile.sizeBytes).sum
    queriesThisMonth := if counted then db.used now tenantId else 0 }

end

/-- `record_usage`, in a session of the tenant `setting`; row-level security refuses the row of
another tenant. -/
def recordUsage (db : Tables) (setting : ℕ) (row : UsageRow) : Option Tables :=
  if row.tenantId = setting then some { db with usageLog := db.usageLog ++ [row] } else none

/-! ## Requests -/

/-- A request that has loaded its limits, and whether it was let through. -/
structure Request where
  tenantId : ℕ
  lim : Limits
  admitted : Bool
deriving DecidableEq

/-- The tables, the clock and the requests that have not ended. -/
structure State where
  db : Tables
  now : Utc
  requests : List Request

/-- What happens. -/
inductive Event
  | tick (t : Utc)
  /-- Operators change the quotas, and documents come and go. -/
  | change (tenantQuotas : Dict ℕ Limits) (documentFiles : List DocumentFile)
  | load (tenantId : ℕ)
  /-- `get_usage`, whose query may fail, in a transaction from the time `began`, and
  `check_query`. -/
  | check (r : Request) (counted : Bool) (began : ℤ)
  /-- `record_usage`, in a transaction from the time `began`, and the end of the request. -/
  | record (r : Request) (tenantId : ℕ) (provider model : PyStr) (inputTokens outputTokens : ℤ)
      (costUsd : ℚ) (began : ℤ)
  /-- The end of a request that records nothing. -/
  | finish (r : Request)

variable [Server]

/-- The request is checked: it is let through, or it ends. -/
def State.check (s : State) (r : Request) (counted : Bool) (began : ℤ) : List Request :=
  match checkQuery s.now r.lim (getUsage s.db began r.tenantId counted) with
  | .ok d => if d.allowed then { r with admitted := true } :: s.requests.erase r
    else s.requests.erase r
  | .error _ => s.requests.erase r

/-- One step. -/
def State.step (s : State) : Event → Option State
  | .tick t => if s.now.1.wallClock ≤ t.1.wallClock then some { s with now := t } else none
  | .change tenantQuotas documentFiles =>
    some { s with db := { s.db with tenantQuotas, documentFiles } }
  | .load tenantId =>
    some { s with requests := ⟨tenantId, load s.db tenantId, false⟩ :: s.requests }
  | .check r counted began =>
    if r ∈ s.requests ∧ r.admitted = false ∧ began ≤ s.now.1.wallClock then
      some { s with requests := s.check r counted began }
    else none
  | .record r tenantId provider model inputTokens outputTokens costUsd began =>
    if r ∈ s.requests ∧ r.admitted = true ∧ began ≤ s.now.1.wallClock then
      let row : UsageRow := { tenantId, provider, model, inputTokens, outputTokens, costUsd,
                              createdAt := began }
      some { s with db := (recordUsage s.db r.tenantId row).getD s.db,
                    requests := s.requests.erase r }
    else none
  | .finish r => if r ∈ s.requests then some { s with requests := s.requests.erase r } else none

/-- The requests, over an empty log. -/
def machine : Machine State Event where
  init s := s.db.usageLog = [] ∧ s.requests = []
  step := State.step

/-! ## How far a tenant can go -/

/-- The requests of the tenant that were let through and have not ended. -/
def State.inFlight (s : State) (tenantId : ℕ) : ℕ :=
  s.requests.countP fun r => r.tenantId = tenantId ∧ r.admitted = true

/-- What the tenant has used in the month of the clock. -/
def State.used (s : State) (tenantId : ℕ) : ℕ := s.db.used s.now.1.wallClock tenantId

/-- The requests of the tenant find limits of at most `limit`, fewer than `k` others in flight, and
a log that they can count. -/
def Careful (tenantId : ℕ) (limit : ℤ) (k : ℕ) (s : State) : Event → Prop
  | .load t => t = tenantId → (load s.db t).queriesPerMonth ≤ limit
  | .check r counted _ => r.tenantId = tenantId → counted = true ∧ s.inFlight tenantId < k
  | _ => True

instance (tenantId : ℕ) (limit : ℤ) (k : ℕ) (s : State) :
    (e : Event) → Decidable (Careful tenantId limit k s e)
  | .load t => inferInstanceAs
      (Decidable (t = tenantId → (load s.db t).queriesPerMonth ≤ limit))
  | .check r counted _ => inferInstanceAs
      (Decidable (r.tenantId = tenantId → counted = true ∧ s.inFlight tenantId < k))
  | .tick _ | .change _ _ | .record .. | .finish _ => inferInstanceAs (Decidable True)

/-- The requests that a tenant may have made or have in flight. -/
def bound (limit : ℤ) (k : ℕ) : ℤ := if limit ≤ 0 then 0 else limit + k - 1

/-- What every careful run keeps. -/
structure Bounded (tenantId : ℕ) (limit : ℤ) (k : ℕ) (s : State) : Prop where
  lim : ∀ r ∈ s.requests, r.tenantId = tenantId → r.lim.queriesPerMonth ≤ limit
  inFlight : s.inFlight tenantId ≤ k
  total : (s.used tenantId : ℤ) + s.inFlight tenantId ≤ bound limit k

variable {s s' : State} {tenantId : ℕ} {limit : ℤ} {k : ℕ}

omit [Server] in
lemma countP_erase {l : List Request} {r : Request} (h : r ∈ l) (p : Request → Bool) :
    l.countP p = (l.erase r).countP p + if p r then 1 else 0 := by
  rw [(List.perm_cons_erase h).countP_eq, List.countP_cons]

omit [Server] in
lemma countP_erase_le {l : List Request} {r : Request} (p : Request → Bool) :
    (l.erase r).countP p ≤ l.countP p :=
  List.erase_sublist.countP_le

/-- Later in time a tenant has used no more. -/
lemma used_anti {db : Tables} {t t' : ℤ} (h : t ≤ t') :
    db.used t' tenantId ≤ db.used t tenantId := by
  refine List.countP_mono_left fun r _ hr => ?_
  simp only [decide_eq_true_eq] at hr ⊢
  exact ⟨hr.1, (Server.truncMonth_mono h).trans hr.2⟩

omit [Server] in
/-- A request is let through if one more is within its limit. -/
lemma checkQuery_allowed {now : Utc} {lim : Limits} {usage : Usage} {d : Decision}
    (h : checkQuery now lim usage = .ok d) (ha : d.allowed = true) :
    usage.queriesThisMonth + 1 ≤ lim.queriesPerMonth := by
  rw [checkQuery] at h
  split_ifs at h with hover
  · cases hsecs : secondsUntilNextMonth now with
    | error e => simp [hsecs, bind, Except.bind] at h
    | ok secs =>
      rw [hsecs] at h
      obtain rfl := Except.ok.inj h
      cases ha
  · omega

/-- A request that ends, or is not let through, leaves the others. -/
lemma Bounded.erase (h : Bounded tenantId limit k s) (r : Request) :
    Bounded tenantId limit k { s with requests := s.requests.erase r } := by
  have hle : ({ s with requests := s.requests.erase r } : State).inFlight tenantId ≤
      s.inFlight tenantId := countP_erase_le _
  refine ⟨fun x hx => h.lim x (List.mem_of_mem_erase hx), hle.trans h.inFlight, ?_⟩
  have htotal := h.total
  show (s.used tenantId : ℤ) + _ ≤ _
  omega

lemma Bounded.tick (h : Bounded tenantId limit k s) {t : Utc}
    (ht : s.now.1.wallClock ≤ t.1.wallClock) : Bounded tenantId limit k { s with now := t } := by
  have hused : s.db.used t.1.wallClock tenantId ≤ s.used tenantId := used_anti ht
  refine ⟨h.lim, h.inFlight, ?_⟩
  have htotal := h.total
  show (s.db.used t.1.wallClock tenantId : ℤ) + s.inFlight tenantId ≤ _
  omega

lemma Bounded.load (h : Bounded tenantId limit k s) {t : ℕ}
    (ht : t = tenantId → (load s.db t).queriesPerMonth ≤ limit) :
    Bounded tenantId limit k { s with requests := ⟨t, load s.db t, false⟩ :: s.requests } := by
  have hflight : ({ s with requests := ⟨t, Quota.load s.db t, false⟩ :: s.requests } :
      State).inFlight tenantId = s.inFlight tenantId := by
    simp [State.inFlight]
  refine ⟨?_, hflight ▸ h.inFlight, ?_⟩
  · rintro r hr hrt
    rcases List.mem_cons.mp hr with rfl | hr
    · exact ht hrt
    · exact h.lim r hr hrt
  · rw [hflight]
    exact h.total

lemma Bounded.check (h : Bounded tenantId limit k s) {r : Request} {counted : Bool} {began : ℤ}
    (hr : r ∈ s.requests) (ha : r.admitted = false) (hb : began ≤ s.now.1.wallClock)
    (hc : r.tenantId = tenantId → counted = true ∧ s.inFlight tenantId < k) :
    Bounded tenantId limit k { s with requests := s.check r counted began } := by
  unfold State.check
  split
  · next d hd =>
    split_ifs with hallowed
    · have hless := checkQuery_allowed hd hallowed
      have herase := h.erase r
      have hsame := countP_erase hr fun r => r.tenantId = tenantId ∧ r.admitted = true
      simp only [ha, Bool.false_eq_true, and_false, decide_false, if_false] at hsame
      have hflight : ({ s with requests := { r with admitted := true } :: s.requests.erase r } :
          State).inFlight tenantId =
          s.inFlight tenantId + if r.tenantId = tenantId then 1 else 0 := by
        simp only [State.inFlight, List.countP_cons, and_true, decide_eq_true_eq, hsame,
          Nat.add_zero]
      by_cases hrt : r.tenantId = tenantId
      · -- the count that the request saw goes back to the month of an earlier time
        obtain ⟨hcounted, hlt⟩ := hc hrt
        rw [hcounted, hrt] at hless
        have hseen : (s.db.used began tenantId : ℤ) + 1 ≤ r.lim.queriesPerMonth := hless
        have hcount : s.used tenantId ≤ s.db.used began tenantId := used_anti hb
        have hlim := h.lim r hr hrt
        rw [if_pos hrt] at hflight
        refine ⟨?_, by omega, ?_⟩
        · rintro x hx hxt
          rcases List.mem_cons.mp hx with rfl | hx
          · exact hlim
          · exact h.lim x (List.mem_of_mem_erase hx) hxt
        · show (s.used tenantId : ℤ) + _ ≤ _
          rw [bound, if_neg (by omega), hflight]
          omega
      · rw [if_neg hrt, Nat.add_zero] at hflight
        refine ⟨?_, hflight ▸ h.inFlight, ?_⟩
        · rintro x hx hxt
          rcases List.mem_cons.mp hx with rfl | hx
          · exact absurd hxt hrt
          · exact h.lim x (List.mem_of_mem_erase hx) hxt
        · show (s.used tenantId : ℤ) + _ ≤ _
          rw [hflight]
          exact h.total
    · exact h.erase r
  · exact h.erase r

lemma Bounded.record (h : Bounded tenantId limit k s) {r : Request} (hr : r ∈ s.requests)
    (ha : r.admitted = true) (row : UsageRow) :
    Bounded tenantId limit k { s with db := (recordUsage s.db r.tenantId row).getD s.db,
                                      requests := s.requests.erase r } := by
  rw [recordUsage]
  split_ifs with hrow
  · have hflight := countP_erase hr fun r => r.tenantId = tenantId ∧ r.admitted = true
    have hused : ({ s.db with usageLog := s.db.usageLog ++ [row] } : Tables).used
        s.now.1.wallClock tenantId ≤
        s.used tenantId + if r.tenantId = tenantId then 1 else 0 := by
      simp only [Tables.used, List.countP_append, List.countP_singleton, hrow, decide_eq_true_eq]
      refine Nat.add_le_add_left ?_ _
      split_ifs with hcount hrt
      · exact le_refl _
      · exact absurd hcount.1 hrt
      · exact Nat.zero_le _
      · exact le_refl _
    simp only [ha, and_true, decide_eq_true_eq] at hflight
    have hgone : s.inFlight tenantId = (s.requests.erase r).countP
        (fun r => r.tenantId = tenantId ∧ r.admitted = true) +
        if r.tenantId = tenantId then 1 else 0 := hflight
    have htotal := h.total
    refine ⟨fun x hx => h.lim x (List.mem_of_mem_erase hx), (h.erase r).inFlight, ?_⟩
    show (Tables.used { s.db with usageLog := s.db.usageLog ++ [row] } s.now.1.wallClock
      tenantId : ℤ) + (List.countP _ (s.requests.erase r) : ℕ) ≤ _
    omega
  · exact h.erase r

lemma Bounded.step {e : Event} (h : Bounded tenantId limit k s)
    (hc : Careful tenantId limit k s e) (hs : s.step e = some s') :
    Bounded tenantId limit k s' := by
  cases e with
  | tick t =>
    rw [State.step] at hs
    split_ifs at hs with ht
    obtain rfl := Option.some.inj hs
    exact h.tick ht
  | change tenantQuotas documentFiles =>
    obtain rfl := Option.some.inj hs
    exact ⟨h.lim, h.inFlight, h.total⟩
  | load t =>
    obtain rfl := Option.some.inj hs
    exact h.load hc
  | check r counted began =>
    rw [State.step] at hs
    split_ifs at hs with hr
    obtain rfl := Option.some.inj hs
    exact h.check hr.1 hr.2.1 hr.2.2 hc
  | record r t provider model inputTokens outputTokens costUsd began =>
    rw [State.step] at hs
    split_ifs at hs with hr
    obtain rfl := Option.some.inj hs
    exact h.record hr.1 hr.2.1 _
  | finish r =>
    rw [State.step] at hs
    split_ifs at hs with hr
    obtain rfl := Option.some.inj hs
    exact h.erase r

/-- **A tenant goes over the limit of its month by at most the requests that it has in flight
besides.**  Along a run in which its log can be counted, it never has more than `limit + k - 1`
queries in the month, those in flight included. -/
theorem used_le (h : machine.Reach (Careful tenantId limit k) s) :
    (s.used tenantId : ℤ) + s.inFlight tenantId ≤ if limit ≤ 0 then 0 else limit + k - 1 := by
  refine (h.invariant (I := Bounded tenantId limit k) ?_ fun s e s' hb hc hs => hb.step hc hs).total
  rintro s ⟨hlog, hreq⟩
  have hused : s.used tenantId = 0 := by simp [State.used, Tables.used, hlog]
  have hflight : s.inFlight tenantId = 0 := by simp [State.inFlight, hreq]
  refine ⟨fun r hr => ?_, by omega, ?_⟩
  · rw [hreq] at hr
    cases hr
  · rw [hused, hflight, bound]
    split_ifs <;> omega

section Example

/-- The server in December 2026. -/
@[reducible] def december : Server where
  truncMonth t :=
    if t < (daysBefore 2026 12 + 1) * dayMicros then 0 else (daysBefore 2026 12 + 1) * dayMicros
  truncMonth_mono := by
    intro t t' h
    have hpos : 0 ≤ ((daysBefore 2026 12 : ℤ) + 1) * dayMicros :=
      Int.mul_nonneg (by omega) (by decide)
    dsimp only
    split_ifs <;> omega

/-- A tenant with one query in the month. -/
def oneQuery : Request := ⟨7, ⟨100, 500 * 1024 * 1024, 1⟩, false⟩

/-- Two requests are counted before either of them has written its row. -/
def racing : List Event :=
  let began := noon.1.wallClock
  [.load 7, .load 7, .check oneQuery true began, .check oneQuery true began,
    .record { oneQuery with admitted := true } 7 (text "openai") (text "gpt") 10 20 0 began,
    .record { oneQuery with admitted := true } 7 (text "openai") (text "gpt") 10 20 0 began]

/-- The tables before the requests, at noon. -/
def atNoon : State := ⟨⟨Dict.empty.set 7 oneQuery.lim, [], []⟩, noon, []⟩

omit [Server] in
theorem racing_used_le : ∃ s, (@machine december).run atNoon racing = some s ∧
    @State.used december s 7 = 2 ∧
    (@State.used december s 7 : ℤ) + s.inFlight 7 ≤ if (1 : ℤ) ≤ 0 then 0 else 1 + (2 : ℕ) - 1 := by
  let : Server := december
  have hrun : ((machine.run atNoon racing).map fun s => s.used 7) = some 2 := by decide +kernel
  obtain ⟨s, hs, hused⟩ := Option.map_eq_some_iff.mp hrun
  have halong : machine.Along (Careful 7 1 2) atNoon racing := by decide +kernel
  exact ⟨s, hs, hused, used_le (Machine.Reach.run (.init ⟨rfl, rfl⟩) halong hs)⟩

end Example

end Omkit.Quota
