import Omkit.Lib.Json.Dynamic

/-!
# Feature flags

A flag as it is parsed from its row, the flags that a store loads, and the check of a caller
against them.
-/

namespace Omkit.Featureflags

open Lib

/-- `Role`. -/
inductive Role
  | admin
  | support
  | user
deriving DecidableEq

/-- `Role.value`. -/
def Role.value : Role → PyStr
  | admin => text "admin"
  | support => text "support"
  | user => text "user"

/-- `Role(s)`, for a known value. -/
def Role.ofValue (s : PyStr) : Option Role :=
  [Role.admin, Role.support, Role.user].find? fun r => r.value = s

/-- `Flag`. -/
structure Flag where
  enabled : Bool := false
  roles : List Role := []
deriving DecidableEq

/-- A `value_json`, as the driver hands it over. -/
inductive Raw (F : Type)
  | bytes (b : Bytes)
  | str (s : PyStr)
  | value (v : Json F)

variable {F : Type} [JsonRuntime F]

/-- What `parse_from_json` makes of a `value_json` before it looks into it: a dictionary stays as
it is, anything else is given to `json.loads`. -/
def loaded : Raw F → Except StdExc (Json F)
  | .bytes b => loadsBytes b
  | .str s => loads s
  | .value (.str s) => loads s
  | .value (.obj obj) => .ok (.obj obj)
  | .value _ => .error .typeError

/-- The exceptions that `parse_from_json` takes for malformed JSON. -/
def caught (e : StdExc) : Bool := e = .typeError || e.isValueError

section Model

variable [PyNumbers F]

/-- The role that an item of the list stands for; what is not a known string is skipped. -/
def roleOf : Json F → Option Role
  | .str s => Role.ofValue s
  | _ => none

/-- The flag of a JSON object. -/
def flagOf (obj : List (PyStr × Json F)) : Flag :=
  let enabled := ((obj.lookup (text "enabled")).getD (.bool false)).truthy
  match ((obj.lookup (text "roles")).getD .null).orElse (.arr []) with
  | .arr roleStrs => { enabled, roles := roleStrs.filterMap roleOf }
  | _ => {}

/-- `parse_from_json`. -/
def parseFromJson (raw : Raw F) : Except StdExc Flag :=
  match loaded raw with
  | .error e => if caught e then .ok {} else .error e
  | .ok (.obj obj) => .ok (flagOf obj)
  | .ok _ => .ok {}

/-- The rows of the query, parsed one after the other into `out`. -/
def parseRows : List (PyStr × Raw F) → Dict PyStr Flag → Except StdExc (Dict PyStr Flag)
  | [], out => .ok out
  | (key, raw) :: rows, out => do
    let flag ← parseFromJson raw
    parseRows rows (out.set key flag)

/-- `_load_from_pool`, on the rows of `app_settings` that the query returns. -/
def loadFromPool (rows : Dict PyStr (Raw F)) : Except StdExc (Dict PyStr Flag) :=
  parseRows rows.items .empty

/-- The flags of a store after a refresh from the pool: if it raises, those it had. -/
def refreshed (flags : Dict PyStr Flag) (rows : Dict PyStr (Raw F)) : Dict PyStr Flag :=
  match loadFromPool rows with
  | .ok fresh => fresh
  | .error _ => flags

end Model

/-- `allowed`, with the `get` of the store and the roles of the context. -/
def allowed (get : PyStr → Option Flag) (callerRoles : List Role) (key : PyStr) : Bool :=
  match get key with
  | none => false
  | some flag =>
    if flag.enabled = false then false
    else if callerRoles = [] ∨ flag.roles = [] then false
    else callerRoles.any fun cr => cr ∈ flag.roles

/-! ## The gate -/

/-- The object stored under a key. -/
def Stored (rows : Dict PyStr (Raw F)) (key : PyStr) (obj : List (PyStr × Json F)) : Prop :=
  ∃ raw, rows.get? key = some raw ∧ loaded raw = .ok (.obj obj)

/-- The roles of the object are a list that has the string of one of the caller's roles. -/
def Lists (obj : List (PyStr × Json F)) (callerRoles : List Role) : Prop :=
  ∃ l, obj.lookup (text "roles") = some (.arr l) ∧ ∃ r ∈ callerRoles, .str r.value ∈ l

/-- The rule of the gate: the value is an object that is enabled by the boolean `true` and lists a
role of the caller. -/
def Permits (rows : Dict PyStr (Raw F)) (callerRoles : List Role) (key : PyStr) : Prop :=
  ∃ obj, Stored rows key obj ∧ obj.lookup (text "enabled") = some (.bool true) ∧
    Lists obj callerRoles

/-- The value lists a role of the caller, and its `enabled` is not the boolean `true` but counts
as true: a number other than zero, or a string, list or object that is not empty. -/
def Lenient [PyNumbers F] (rows : Dict PyStr (Raw F)) (callerRoles : List Role) (key : PyStr) :
    Prop :=
  ∃ obj v, Stored rows key obj ∧ obj.lookup (text "enabled") = some v ∧ v ≠ .bool true ∧
    v.truthy = true ∧ Lists obj callerRoles

/-- No row is nested too deep for `json.loads`: what it raises on a row is caught. -/
def Readable (rows : Dict PyStr (Raw F)) : Prop :=
  ∀ p ∈ rows.items, ∀ e, loaded p.2 = .error e → caught e = true

lemma Stored.unique {rows : Dict PyStr (Raw F)} {key : PyStr} {obj obj' : List (PyStr × Json F)}
    (h : Stored rows key obj) (h' : Stored rows key obj') : obj = obj' := by
  obtain ⟨raw, hraw, hload⟩ := h
  obtain ⟨raw', hraw', hload'⟩ := h'
  obtain rfl := Option.some.inj (hraw.symm.trans hraw')
  exact Json.obj.inj (Except.ok.inj (hload.symm.trans hload'))

lemma Role.ofValue_eq_some {s : PyStr} {r : Role} : Role.ofValue s = some r ↔ s = r.value := by
  constructor
  · intro h
    have hfind : [Role.admin, Role.support, Role.user].find? (fun r => r.value = s) = some r := h
    have hval : r.value = s := by simpa using List.find?_some hfind
    exact hval.symm
  · rintro rfl
    cases r <;> decide

omit [JsonRuntime F] in
lemma mem_roles {l : List (Json F)} {r : Role} :
    r ∈ l.filterMap roleOf ↔ .str r.value ∈ l := by
  rw [List.mem_filterMap]
  constructor
  · rintro ⟨v, hv, h⟩
    cases v with
    | str s =>
      obtain rfl := Role.ofValue_eq_some.mp h
      exact hv
    | _ => cases h
  · intro h
    exact ⟨_, h, Role.ofValue_eq_some.mpr rfl⟩

/-- A flag lets a caller in if it is enabled and has a role of the caller. -/
lemma allowed_eq_true {get : PyStr → Option Flag} {callerRoles : List Role} {key : PyStr} :
    allowed get callerRoles key = true ↔
      ∃ flag, get key = some flag ∧ flag.enabled = true ∧ ∃ r ∈ callerRoles, r ∈ flag.roles := by
  unfold allowed
  cases hget : get key with
  | none => simp
  | some flag =>
    cases he : flag.enabled with
    | false => simp [he]
    | true =>
      by_cases hnil : callerRoles = [] ∨ flag.roles = []
      · rcases hnil with hnil | hnil <;> simp [hnil, he]
      · simp [hnil, he]

section Parse

variable [PyNumbers F]

omit [JsonRuntime F] in
/-- What the flag of an object says: it is enabled by any value that counts as true. -/
lemma flagOf_permits {obj : List (PyStr × Json F)} {callerRoles : List Role} :
    ((flagOf obj).enabled = true ∧ ∃ r ∈ callerRoles, r ∈ (flagOf obj).roles) ↔
      (∃ v, obj.lookup (text "enabled") = some v ∧ v.truthy = true) ∧ Lists obj callerRoles := by
  have henabled : ((obj.lookup (text "enabled")).getD (.bool false)).truthy = true ↔
      ∃ v, obj.lookup (text "enabled") = some v ∧ v.truthy = true := by
    cases obj.lookup (text "enabled") <;> simp [Json.truthy]
  have hroles : ∀ v : Json F, (obj.lookup (text "roles")).getD .null = v →
      (Lists obj callerRoles ↔ ∃ l, v = .arr l ∧ ∃ r ∈ callerRoles, .str r.value ∈ l) := by
    rintro v rfl
    cases hlook : obj.lookup (text "roles") <;> simp [Lists, hlook]
  rw [← henabled]
  unfold flagOf
  dsimp only
  generalize hv : (obj.lookup (text "roles")).getD .null = v
  rw [hroles v hv]
  by_cases ht : v.truthy = true
  · rw [Json.orElse, if_pos ht]
    cases v with
    | arr l =>
      simp only [mem_roles]
      simp
    | _ => simp
  · -- a false value stands for the empty list, and so does the empty list itself
    rw [Json.orElse, if_neg ht]
    cases v with
    | arr l =>
      have hl : l = [] := by simpa [Json.truthy] using ht
      simp [hl]
    | _ => simp

/-- A row gives a flag unless `json.loads` raises on it what is not caught. -/
lemma parseFromJson_isOk {raw : Raw F} :
    (∃ flag, parseFromJson raw = .ok flag) ↔ ∀ e, loaded raw = .error e → caught e = true := by
  unfold parseFromJson
  split
  · next e he =>
    by_cases hc : caught e = true <;> simp [he, hc]
  · next hobj => simp [hobj]
  · next hv => simp [hv]

/-- A flag lets a caller in only if its row is an object. -/
lemma parseFromJson_permits {raw : Raw F} {flag : Flag} (h : parseFromJson raw = .ok flag)
    {callerRoles : List Role} :
    (flag.enabled = true ∧ ∃ r ∈ callerRoles, r ∈ flag.roles) ↔
      ∃ obj, loaded raw = .ok (.obj obj) ∧
        (∃ v, obj.lookup (text "enabled") = some v ∧ v.truthy = true) ∧
        Lists obj callerRoles := by
  unfold parseFromJson at h
  split at h
  · next e he =>
    split at h
    · obtain rfl := Except.ok.inj h
      simp [he]
    · cases h
  · next obj hobj =>
    obtain rfl := Except.ok.inj h
    rw [flagOf_permits, hobj]
    simp
  · next v hno hv =>
    obtain rfl := Except.ok.inj h
    have hnot : ∀ obj, loaded raw ≠ .ok (.obj obj) := fun obj hobj =>
      hno obj (Except.ok.inj (hv.symm.trans hobj))
    simp [hnot]

/-! ## The flags of a store -/

lemma parseRows_isOk {rows : List (PyStr × Raw F)} {out : Dict PyStr Flag} :
    (∃ out', parseRows rows out = .ok out') ↔ ∀ p ∈ rows, ∃ flag, parseFromJson p.2 = .ok flag := by
  induction rows generalizing out with
  | nil => simp [parseRows]
  | cons p rows ih =>
    rw [parseRows, List.forall_mem_cons]
    cases hraw : parseFromJson p.2 with
    | error e => simp [bind, Except.bind]
    | ok flag =>
      show (∃ out', parseRows rows (out.set p.1 flag) = .ok out') ↔ _
      rw [ih]
      simp

lemma parseRows_get? {rows : List (PyStr × Raw F)} {out out' : Dict PyStr Flag}
    (hnodup : (rows.map Prod.fst).Nodup) (h : parseRows rows out = .ok out') (key : PyStr)
    (flag : Flag) : out'.get? key = some flag ↔
      (∃ raw, (key, raw) ∈ rows ∧ parseFromJson raw = .ok flag) ∨
        key ∉ rows.map Prod.fst ∧ out.get? key = some flag := by
  induction rows generalizing out with
  | nil =>
    obtain rfl := Except.ok.inj h
    simp
  | cons p rows ih =>
    obtain ⟨k, raw⟩ := p
    obtain ⟨hk, hnodup⟩ := List.nodup_cons.mp hnodup
    rw [parseRows] at h
    cases hraw : parseFromJson raw with
    | error e => simp [hraw, bind, Except.bind] at h
    | ok f =>
      rw [hraw] at h
      rw [ih hnodup h, Dict.get?_set]
      -- the row of the key itself, or a row after it
      by_cases hkey : key = k
      · subst hkey
        have hnone : ∀ r, (key, r) ∉ rows := fun r hr =>
          hk (List.mem_map.mpr ⟨(key, r), hr, rfl⟩)
        simp [hk, hnone, hraw, eq_comm]
      · simp [hkey]

/-- A readable table is loaded, and the flag of a key is the one of its row. -/
lemma loadFromPool_ok {rows : Dict PyStr (Raw F)} (h : Readable rows) :
    ∃ flags, loadFromPool rows = .ok flags ∧ ∀ key flag, flags.get? key = some flag ↔
      ∃ raw, rows.get? key = some raw ∧ parseFromJson raw = .ok flag := by
  obtain ⟨flags, hflags⟩ := parseRows_isOk.mpr fun p hp => parseFromJson_isOk.mpr (h p hp)
  refine ⟨flags, hflags, fun key flag => ?_⟩
  rw [parseRows_get? rows.nodup hflags]
  simp [Dict.get?_eq_some, Dict.empty]

/-- A table that is not readable is not loaded. -/
lemma loadFromPool_error {rows : Dict PyStr (Raw F)} (h : ¬ Readable rows) :
    ∃ e, loadFromPool rows = .error e := by
  cases hload : loadFromPool rows with
  | error e => exact ⟨e, rfl⟩
  | ok flags =>
    have hall := parseRows_isOk.mp ⟨flags, hload⟩
    exact absurd (fun p hp => parseFromJson_isOk.mp (hall p hp)) h

/-- What a store lets through after its first refresh. -/
lemma allowed_refreshed {rows : Dict PyStr (Raw F)} {callerRoles : List Role} {key : PyStr} :
    allowed (refreshed .empty rows).get? callerRoles key = true ↔
      Readable rows ∧ (Permits rows callerRoles key ∨ Lenient rows callerRoles key) := by
  rw [allowed_eq_true]
  by_cases hread : Readable rows
  · obtain ⟨flags, hflags, hget⟩ := loadFromPool_ok hread
    rw [refreshed, hflags]
    constructor
    · rintro ⟨flag, hflag, hyes⟩
      obtain ⟨raw, hraw, hparse⟩ := (hget key flag).mp hflag
      obtain ⟨obj, hobj, ⟨v, hv, ht⟩, hlists⟩ := (parseFromJson_permits hparse).mp hyes
      have hstored : Stored rows key obj := ⟨raw, hraw, hobj⟩
      refine ⟨hread, ?_⟩
      by_cases htrue : v = .bool true
      · exact Or.inl ⟨obj, hstored, htrue ▸ hv, hlists⟩
      · exact Or.inr ⟨obj, v, hstored, hv, htrue, ht, hlists⟩
    · rintro ⟨-, h⟩
      obtain ⟨obj, v, ⟨raw, hraw, hobj⟩, hv, ht, hlists⟩ : ∃ obj v, Stored rows key obj ∧
          obj.lookup (text "enabled") = some v ∧ v.truthy = true ∧ Lists obj callerRoles := by
        rcases h with ⟨obj, hobj, hv, hlists⟩ | ⟨obj, v, hobj, hv, -, ht, hlists⟩
        · exact ⟨obj, _, hobj, hv, rfl, hlists⟩
        · exact ⟨obj, v, hobj, hv, ht, hlists⟩
      obtain ⟨flag, hparse⟩ := parseFromJson_isOk.mpr fun e he => nomatch hobj.symm.trans he
      exact ⟨flag, (hget key flag).mpr ⟨raw, hraw, hparse⟩,
        (parseFromJson_permits hparse).mpr ⟨obj, hobj, ⟨v, hv, ht⟩, hlists⟩⟩
  · -- one row that does not parse fails the load, and the cache stays empty
    obtain ⟨e, he⟩ := loadFromPool_error hread
    rw [refreshed, he]
    simp [hread, Dict.get?_eq_none.mpr]

/-- **A gate over a freshly loaded store follows the rule unless the value of its flag lists a role
of the caller under an `enabled` that only counts as true, or a row is nested too deep and the
rule would let the caller in.** -/
theorem allowed_iff_permits_iff (rows : Dict PyStr (Raw F)) (callerRoles : List Role)
    (key : PyStr) :
    (allowed (refreshed .empty rows).get? callerRoles key = true ↔
        Permits rows callerRoles key) ↔
      (Readable rows → ¬ Lenient rows callerRoles key) ∧
        (¬ Readable rows → ¬ Permits rows callerRoles key) := by
  have hexcl : Lenient rows callerRoles key → ¬ Permits rows callerRoles key := by
    rintro ⟨obj, v, hobj, hv, hne, -, -⟩ ⟨obj', hobj', hv', -⟩
    obtain rfl := hobj.unique hobj'
    exact hne (Option.some.inj (hv.symm.trans hv'))
  rw [allowed_refreshed]
  by_cases hread : Readable rows <;> simp only [hread, true_and, false_and, true_implies,
    false_implies, not_true_eq_false, not_false_eq_true, and_true, iff_self, false_iff]
  constructor
  · intro h hlen
    exact hexcl hlen (h.mp (Or.inr hlen))
  · intro hlen
    exact or_iff_left hlen

end Parse

section Example

/-- A flag row whose `enabled` is the text `"false"`. -/
def textFlag : Dict PyStr (Raw Empty) :=
  Dict.empty.set (text "flag.beta") (.value (.obj
    [(text "enabled", .str (text "false")), (text "roles", .arr [.str (text "admin")])]))

theorem text_enabled_opens :
    allowed (refreshed .empty textFlag).get? [.admin] (text "flag.beta") = true ∧
      ¬ Permits textFlag [.admin] (text "flag.beta") := by
  refine ⟨by decide +kernel, ?_⟩
  rintro ⟨obj, ⟨raw, hraw, hobj⟩, henabled, -⟩
  have hrow : textFlag.get? (text "flag.beta") = some (.value (.obj
      [(text "enabled", .str (text "false")), (text "roles", .arr [.str (text "admin")])])) := rfl
  obtain rfl := Option.some.inj (hrow.symm.trans hraw)
  obtain rfl := Json.obj.inj (Except.ok.inj hobj)
  have hbad : some (Json.str (text "false") : Json Empty) = some (.bool true) := henabled
  simp at hbad

end Example

end Omkit.Featureflags
