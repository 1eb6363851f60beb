import Omkit.Lib.Json.Canonical
import Omkit.Scheduler.Converge

/-!
# Reconciling twice

After a `_reconcile` in which no call fails, every row is settled: the deriver skips it, or its
entry has its hash, or its payload cannot be wrapped.  A settled row makes no call but the one to
the deriver, and it stays settled when its config is written in another order.
-/

namespace Omkit.Scheduler

open Lib Jobqueue

variable {F : Type}

/-! ## The same rows in another order -/

/-- The same row, with the keys of its config in another order. -/
structure Provider.Same (p q : Provider F) : Prop where
  tenantId : p.tenantId = q.tenantId
  name : p.name = q.name
  config : Reordered p.config q.config

/-- The same rows in another order, with the keys of their configs in another order. -/
def SameRows (rows rows' : List (Provider F)) : Prop :=
  ∃ l, rows.Perm l ∧ List.Forall₂ Provider.Same l rows'

lemma Provider.Same.key_eq {p q : Provider F} (h : p.Same q) : p.key = q.key := by
  rw [Provider.key, Provider.key, h.tenantId, h.name]

lemma exists_same_of_mem {l l' : List (Provider F)} (h : List.Forall₂ Provider.Same l l') :
    ∀ q ∈ l', ∃ p ∈ l, p.Same q := by
  induction h with
  | nil => simp
  | cons hpq _ ih =>
    refine List.forall_mem_cons.mpr ⟨⟨_, List.mem_cons_self, hpq⟩, fun q hq => ?_⟩
    obtain ⟨p, hp, hsame⟩ := ih q hq
    exact ⟨p, List.mem_cons_of_mem _ hp, hsame⟩

lemma SameRows.exists_same {rows rows' : List (Provider F)} (h : SameRows rows rows') :
    ∀ q ∈ rows', ∃ p ∈ rows, p.Same q := by
  obtain ⟨l, hperm, hl⟩ := h
  intro q hq
  obtain ⟨p, hp, hsame⟩ := exists_same_of_mem hl q hq
  exact ⟨p, hperm.mem_iff.mpr hp, hsame⟩

lemma map_key_eq {l l' : List (Provider F)} (h : List.Forall₂ Provider.Same l l') :
    l.map Provider.key = l'.map Provider.key := by
  induction h with
  | nil => rfl
  | cons hpq _ ih => rw [List.map_cons, List.map_cons, hpq.key_eq, ih]

lemma SameRows.perm_keys {rows rows' : List (Provider F)} (h : SameRows rows rows') :
    (rows.map Provider.key).Perm (rows'.map Provider.key) := by
  obtain ⟨l, hperm, hl⟩ := h
  rw [← map_key_eq hl]
  exact hperm.map _

/-! ## Settled rows -/

section Settled

variable [JsonRuntime F] {derive : Provider F → PyStr × Bool} {p q : Provider F}

/-- A row with nothing to do, given its entry. -/
inductive Settled (derive : Provider F → PyStr × Bool) (p : Provider F) : Option Entry → Prop
  /-- The deriver skips the row. -/
  | skipped {e} (h : (derive p).2 = false) : Settled derive p e
  | registered {e : Entry} (h : (derive p).2 = true)
      (hhash : configHash (derive p).1 p.config = .ok e.hash) : Settled derive p (some e)
  /-- The payload of the row cannot be wrapped. -/
  | dropped {hash} (h : (derive p).2 = true) (hhash : configHash (derive p).1 p.config = .ok hash)
      (ht : (uuidOf p.tenantId).isSome = false) : Settled derive p none

/-- What a reconcile leaves is settled. -/
lemma RowAfter.settled {old new : Option Entry} (h : RowAfter derive p old new) :
    Settled derive p new := by
  cases h with
  | skipped h => exact .skipped h
  | unchanged h he hhash => exact he ▸ .registered h hhash
  | registered h hold hhash ht => exact .registered h hhash
  | dropped h hold hhash ht => exact .dropped h hhash ht

/-- The hash of a config does not depend on the order of its keys. -/
lemma Provider.Same.configHash_eq (h : p.Same q) (spec : PyStr) :
    configHash spec p.config = configHash spec q.config := by
  rw [configHash, configHash, hashInput, hashInput, h.config.sortKeys_eq]

lemma Settled.same {e : Option Entry} (h : Settled derive p e) (hsame : p.Same q)
    (hderive : derive p = derive q) : Settled derive q e := by
  cases h with
  | skipped h => exact .skipped (hderive ▸ h)
  | registered h hhash =>
    rw [hderive, hsame.configHash_eq] at hhash
    exact .registered (hderive ▸ h) hhash
  | dropped h hhash ht =>
    rw [hderive, hsame.configHash_eq] at hhash
    exact .dropped (hderive ▸ h) hhash (hsame.tenantId ▸ ht)

end Settled

/-! ## The second reconcile -/

section Second

variable [JsonRuntime F] [Pydantic F] {derive : Provider F → PyStr × Bool} {cfg : Config}

/-- The calls that have been made, when the deriver answers as `derive` does.  The other calls may
return anything. -/
def noting (derive : Provider F → PyStr × Bool) (log : List (Call F)) :
    (c : Call F) → Answer c → Option (List (Call F))
  | .deriveCron p, (a : Option (PyStr × Bool)) =>
    if a = some (derive p) then some (log ++ [.deriveCron p]) else none
  | .unregister id, _ => some (log ++ [.unregister id])
  | .register spec taskType body queue, _ => some (log ++ [.register spec taskType body queue])
  | .enqueue taskType tenantId payload queue, _ =>
    some (log ++ [.enqueue taskType tenantId payload queue])

/-- A settled row whose payload cannot be wrapped is not registered. -/
lemma registerOne_of_not_uuid {p : Provider F} {spec hash : PyStr}
    (hhash : configHash spec p.config = .ok hash) (ht : (uuidOf p.tenantId).isSome = false) :
    registerOne cfg p spec = .ret none := by
  obtain ⟨c, hpay⟩ := exists_buildPayload (configHash_eq_ok hhash)
  have hwrap := wrap_strings (F := F) p.tenantId p.name c
  rw [registerOne, hpay]
  dsimp only
  cases hb : wrap p.tenantId
      [(text "provider_name", .str p.name), (text "config", (.str c : Json F))] with
  | error e => rfl
  | ok body =>
    cases ht.symm.trans (hwrap.mp ⟨body, hb⟩)

omit [JsonRuntime F] [Pydantic F] in
lemma wp_deriveCron_noting {p : Provider F} {entries : Dict PyStr Entry} {log : List (Call F)}
    {Q : Option (PyStr × Bool) → Dict PyStr Entry → List (Call F) → Prop}
    (h : Q (some (derive p)) entries (log ++ [.deriveCron p])) :
    (deriveCron p).wp (noting derive) Q entries log := by
  intro a log' hlog
  change Option (PyStr × Bool) at a
  have hif : (if a = some (derive p) then some (log ++ [.deriveCron p]) else none) = some log' :=
    hlog
  split_ifs at hif with ha
  obtain rfl := Option.some.inj hif
  exact ha ▸ h

/-- The second loop over settled rows asks the deriver, and changes nothing. -/
lemma registerDesired_settled {items : List (PyStr × Provider F)} {entries : Dict PyStr Entry}
    {log : List (Call F)} (hsettled : ∀ x ∈ items, Settled derive x.2 (entries.get? x.1)) :
    (registerDesired cfg items).wp (noting derive)
      (fun r entries' log' => r = .ok () ∧ entries' = entries ∧
        log' = log ++ items.map fun x => .deriveCron x.2) entries log := by
  induction items generalizing log with
  | nil => exact ⟨rfl, rfl, (List.append_nil log).symm⟩
  | cons x items ih =>
    obtain ⟨k, p⟩ := x
    obtain ⟨hp, hsettled⟩ := List.forall_mem_cons.mp hsettled
    have hrest : (registerDesired cfg items).wp (noting derive)
        (fun r entries' log' => r = .ok () ∧ entries' = entries ∧
          log' = log ++ ((k, p) :: items).map fun x => .deriveCron x.2)
        entries (log ++ [.deriveCron p]) := by
      refine (ih hsettled).mono fun r entries' log' h => ⟨h.1, h.2.1, ?_⟩
      rw [h.2.2, List.append_assoc]
      rfl
    simp only [registerDesired, Coro.bind_eq, Coro.wp_bind]
    refine wp_deriveCron_noting ?_
    generalize he : entries.get? k = e at hp
    cases hp with
    | skipped hskip =>
      have hd : derive p = ((derive p).1, false) := Prod.ext rfl hskip
      rw [hd]
      exact hrest
    | registered hok hhash =>
      have hd : derive p = ((derive p).1, true) := Prod.ext rfl hok
      rw [hd]
      simp only [hhash, Coro.wp_bind, Coro.wp_read, he, if_true]
      exact hrest
    | dropped hok hhash ht =>
      have hd : derive p = ((derive p).1, true) := Prod.ext rfl hok
      rw [hd]
      simp only [hhash, Coro.wp_bind, Coro.wp_read, he, registerNew, Coro.bind_eq,
        registerOne_of_not_uuid hhash ht]
      exact hrest

/-- **A second `_reconcile` on the same rows makes no call but those to the deriver, and changes
nothing.** -/
theorem reconcile_idempotent {rows rows' : List (Provider F)}
    {entries entries' entries'' : Dict PyStr Entry} {w w' : World F} {r : Except Raised Unit}
    {log : List (Call F)}
    (hrows : (rows.map Provider.key).Nodup) (hsame : SameRows rows rows')
    (hderive : ∀ p q, Provider.Same p q → derive p = derive q)
    (hfirst : Coro.Runs (World.succeed derive) (reconcile cfg (desiredOf rows)) entries w (.ok ())
      entries' w')
    (hsecond : Coro.Runs (noting derive) (reconcile cfg (desiredOf rows')) entries' [] r entries''
      log) :
    r = .ok () ∧ entries'' = entries' ∧ ∀ c ∈ log, ∃ p ∈ rows', c = .deriveCron p := by
  obtain ⟨hgone, hafter⟩ : (∀ k, k ∉ rows.map Provider.key → entries'.get? k = none) ∧
      ∀ p ∈ rows, RowAfter derive p (entries.get? p.key) (entries'.get? p.key) :=
    (reconcile_after hrows).runs hfirst
  have hrows' : (rows'.map Provider.key).Nodup := hsame.perm_keys.nodup_iff.mp hrows
  have hitems := items_desiredOf hrows'
  have hsettled : ∀ x ∈ (desiredOf rows').items, Settled derive x.2 (entries'.get? x.1) := by
    rw [hitems]
    intro x hx
    obtain ⟨q, hq, rfl⟩ := List.mem_map.mp hx
    obtain ⟨p, hp, hpq⟩ := hsame.exists_same q hq
    have hset := (hafter p hp).settled.same hpq (hderive p q hpq)
    rwa [hpq.key_eq] at hset
  have hstale : (entries'.keys.filter fun k => k ∉ (desiredOf rows').keys) = [] := by
    refine List.filter_eq_nil_iff.mpr fun k hk => ?_
    have hmem : k ∈ rows.map Provider.key := by
      by_contra hnot
      exact Dict.get?_eq_none.mp (hgone k hnot) hk
    have hmem' := hsame.perm_keys.mem_iff.mp hmem
    simpa [Dict.keys, hitems] using hmem'
  have hwp : (reconcile cfg (desiredOf rows')).wp (noting derive)
      (fun r s log' => r = .ok () ∧ s = entries' ∧
        log' = [] ++ (desiredOf rows').items.map fun x => .deriveCron x.2) entries' [] := by
    simp only [reconcile, Coro.bind_eq, Coro.wp_bind, Coro.wp_read, hstale]
    exact registerDesired_settled hsettled
  obtain ⟨hr, hs, rfl⟩ := hwp.runs hsecond
  refine ⟨hr, hs, fun c hc => ?_⟩
  rw [hitems] at hc
  simp only [List.nil_append, List.map_map, List.mem_map, Function.comp_apply] at hc
  obtain ⟨q, hq, rfl⟩ := hc
  exact ⟨q, hq, rfl⟩

end Second

section Example

/-- A row with a nested config. -/
def nested : Provider Empty :=
  ⟨text "11111111-1111-1111-1111-111111111111", text "openai",
    .obj [(text "region", .str (text "us")), (text "limits", .obj [(text "a", .int 1),
      (text "b", .int 2)])]⟩

/-- The same row, with the keys in another order. -/
def nestedSwapped : Provider Empty :=
  ⟨text "11111111-1111-1111-1111-111111111111", text "openai",
    .obj [(text "limits", .obj [(text "b", .int 2), (text "a", .int 1)]),
      (text "region", .str (text "us"))]⟩

lemma sameRows_nested : SameRows [nested] [nestedSwapped] := by
  refine ⟨[nested], .refl _, .cons ⟨rfl, rfl, ?_⟩ .nil⟩
  refine .obj (by decide) (.swap _ _ []) rfl (.cons ?_ (.cons (.refl _) .nil))
  exact .obj (by decide) (.swap _ _ []) rfl (.cons (.refl _) (.cons (.refl _) .nil))

theorem nested_reconcile_idempotent :
    ∃ (entries' entries'' : Dict PyStr Entry) (w' : World Empty) (r : Except Raised Unit)
      (log : List (Call Empty)),
      Coro.Runs (World.succeed acceptAll) (reconcile syncs (desiredOf [nested])) .empty ⟨.empty, []⟩
        (.ok ()) entries' w' ∧
      Coro.Runs (noting acceptAll) (reconcile syncs (desiredOf [nestedSwapped])) entries' [] r
        entries'' log ∧
      r = .ok () ∧ entries'' = entries' ∧ ∀ c ∈ log, ∃ p ∈ [nestedSwapped], c = .deriveCron p := by
  obtain ⟨r₁, entries', w', hfirst, hok⟩ := Coro.exists_runs_of_eval
    (E := World.succeed acceptAll) (f := answers acceptAll)
    (x := reconcile syncs (desiredOf [nested])) (s := .empty) (w := ⟨.empty, []⟩)
    (p := fun e => e.1.isOk) (by decide +kernel)
  obtain ⟨u, rfl⟩ : ∃ u, r₁ = .ok u := by
    cases r₁ with
    | ok u => exact ⟨u, rfl⟩
    | error e => cases hok
  have hanswers : ∀ (log : List (Call Empty)) (c : Call Empty),
      ∃ v, noting acceptAll log c (answers acceptAll ⟨.empty, []⟩ c) = some v := by
    intro log c
    cases c with
    | deriveCron p => exact ⟨log ++ [.deriveCron p], by simp [noting, answers]⟩
    | _ => exact ⟨_, rfl⟩
  obtain ⟨r, entries'', log, hsecond⟩ := Coro.exists_runs
    (fun _ c => answers acceptAll ⟨.empty, []⟩ c) hanswers
    (reconcile syncs (desiredOf [nestedSwapped])) entries' []
  exact ⟨entries', entries'', w', r, log, hfirst, hsecond,
    reconcile_idempotent (by simp) sameRows_nested (fun _ _ _ => rfl) hfirst hsecond⟩

end Example

end Omkit.Scheduler
