import Omkit.Settings.Manager

/-!
# Secrets and the settings cache

A key whose latest row was a secret is never to be read from the cache, nor from the cache file that
is written afterwards.  The operations only ever add to the cache: none of them drops a key that has
turned secret, a poll does not record the secrets it sees, and neither a message nor the cache file is
checked against the secrets that are known.
-/

namespace Omkit.Settings

open Lib

variable {F : Type} [JsonRuntime F] [DecidableEq F]

/-- The keys that a reader of the cache file finds. -/
def Manager.fileKeys (m : Manager F) : List PyStr :=
  match m.file.map (loads (F := F)) with
  | some (.ok (.obj l)) => l.map Prod.fst
  | _ => []

/-- No secret is in the cache, so `get` gives its default, and no key that was secret when the cache
file was written is in the file. -/
structure Manager.Sealed (m : Manager F) : Prop where
  uncached : ∀ k, m.Secret k → CacheKey.str k ∉ m.cache.keys
  get : ∀ k, m.Secret k → ∀ default, m.get k default = default
  file : ∀ k ∈ m.sealed, k ∉ m.fileKeys

/-- The name under which a reader of the cache file finds an item. -/
def readName (p : CacheKey F × Entry F) : PyStr := readStr true p.2.name

/-- No fetched row makes a secret of a key that is in the cache. -/
def Manager.Unturned (m : Manager F) (rows : List (PyStr × Bool)) : Prop :=
  ∀ p ∈ rows, p.2 = true → CacheKey.str p.1 ∉ m.cache.keys

/-- The steps that keep the secrets out: no fetched row makes a secret of a key in the cache, nothing
is put into the cache under a key that is a secret by then, and the file is not written while a key
that is no string of that text is printed as a secret. -/
def Clean [FloatKeys F] (m : Manager F) : Op F → Prop
  | .loadFromPool (some rows) | .pollOnce (some rows) => m.Unturned (rowFlags rows)
  | .loadFromDb (some rows) => m.Unturned (rows.map fun p => (p.1, p.2.isSecret))
  | .pollRow => ∀ k r todo latest, m.poll = some ((k, r) :: todo, latest) → r.isSecret = false →
    (∃ v, decodeValue r.value = .ok v) → ¬ m.Secret k
  | .readCache true => ∀ s (v : Json F), m.file = some s → loads s = .ok v →
    ∀ k, CacheKey.str k ∈ (Cache.update .empty v).keys → ¬ m.Secret k
  | .handleMessage data => ∀ payload k (v : Json F), loads data = .ok (.obj payload) →
    payload.lookup (text "key") = some (.str k) → k ≠ [] →
    payload.lookup (text "value") = some v → ¬ m.Secret k
  | .writeCache true => ∀ s, m.dump = .ok s → ∀ p ∈ m.data, p.1 ≠ .str (readName p) →
    ¬ m.Secret (readName p)
  | _ => True

/-! ## Keys of the cache -/

section Keys

omit [JsonRuntime F]

@[simp] lemma Cache.mem_keys_put {c : Cache F} {k k' : CacheKey F} {name : PyStr} {v : Json F} :
    k' ∈ (c.put k name v).keys ↔ k' = k ∨ k' ∈ c.keys := Dict.mem_keys_set

lemma Cache.mem_keys_putAll {c : Cache F} {l : List (PyStr × Json F)} {k : CacheKey F} :
    k ∈ (c.putAll l).keys ↔ k ∈ c.keys ∨ ∃ p ∈ l, k = .str p.1 := by
  induction l generalizing c with
  | nil => simp [Cache.putAll]
  | cons p l ih =>
    show k ∈ ((c.put (.str p.1) p.1 p.2).putAll l).keys ↔ _
    rw [ih, Cache.mem_keys_put, List.exists_mem_cons_iff]
    tauto

end Keys

section Update

variable [FloatKeys F]

omit [JsonRuntime F] [DecidableEq F] in
lemma CacheKey.of?_eq_str {v : Json F} {s : PyStr} :
    CacheKey.of? v = some (.str s) ↔ v = .str s := by
  cases v with
  | float x =>
    simp only [CacheKey.of?]
    split <;> simp
  | _ => simp [CacheKey.of?]

lemma Cache.mem_keys_updateItems {c : Cache F} {l : List (Json F)} {k : CacheKey F} :
    k ∈ (c.updateItems l).keys ↔ k ∈ c.keys ∨ k ∈ (Cache.updateItems .empty l).keys := by
  induction l generalizing c with
  | nil => simp [Cache.updateItems]
  | cons v l ih =>
    simp only [Cache.updateItems]
    split
    · simp
    · split
      · simp
      · rw [ih, ih (c := Cache.put .empty _ _ _), Cache.mem_keys_put, Cache.mem_keys_put]
        simp only [Dict.keys_empty, List.not_mem_nil]
        tauto

/-- What `update` puts into a cache does not depend on what is there. -/
lemma Cache.mem_keys_update {c : Cache F} {v : Json F} {k : CacheKey F} :
    k ∈ (c.update v).keys ↔ k ∈ c.keys ∨ k ∈ (Cache.update .empty v).keys := by
  cases v with
  | obj l => simp [Cache.update, Cache.mem_keys_putAll]
  | arr l => exact Cache.mem_keys_updateItems
  | _ => simp [Cache.update]

end Update

/-! ## Flags -/

omit [DecidableEq F] [JsonRuntime F] in
lemma Manager.mem_secrets {m : Manager F} {k : PyStr} : k ∈ m.secrets ↔ m.Secret k := by
  simp [Manager.secrets, Manager.Secret, Dict.get?_eq_some]

/-- A key is flagged by its row, or else as it was before. -/
lemma mark_get? {flags : Dict PyStr Bool} {rows : List (PyStr × Bool)}
    (hn : (rows.map Prod.fst).Nodup) {k : PyStr} :
    (mark flags rows).get? k = some true ↔
      (k, true) ∈ rows ∨ k ∉ rows.map Prod.fst ∧ flags.get? k = some true := by
  by_cases hk : k ∈ rows.map Prod.fst
  · obtain ⟨⟨k', b⟩, hp, rfl⟩ := List.mem_map.mp hk
    have hget : (mark flags rows).get? k' = some b :=
      Dict.get?_eq_some.mpr (Dict.foldl_set_mem hn hp)
    have hb : (k', true) ∈ rows ↔ b = true := by
      constructor
      · intro h
        have := List.inj_on_of_nodup_map hn hp h rfl
        simpa using congrArg Prod.snd this
      · rintro rfl
        exact hp
    simp [hget, hb, hk]
  · have hget : (mark flags rows).get? k = flags.get? k := Dict.foldl_set_get? _ _ _ hk
    have hno : (k, true) ∉ rows := fun h => hk (List.mem_map_of_mem h)
    simp [hget, hk, hno]

omit [DecidableEq F] in
/-- A load puts only keys of rows that are no secrets into the cache. -/
lemma loadRows_keys {rows : List (PyStr × SettingRow F)} {l l' : Loading F}
    (h : loadRows l rows = .ok l' ∨ loadRows l rows = .error l') {k : PyStr}
    (hk : k ∈ l'.cache.keys) : k ∈ l.cache.keys ∨ (k, false) ∈ rowFlags rows := by
  induction rows generalizing l with
  | nil =>
    obtain rfl : l = l' := by simpa [loadRows] using h
    exact Or.inl hk
  | cons p rows ih =>
    obtain ⟨k', r⟩ := p
    simp only [loadRows] at h
    have hrest : rowFlags ((k', r) :: rows) = (k', r.isSecret) :: rowFlags rows := rfl
    rw [hrest, List.mem_cons]
    split at h
    · rcases ih h with hl | hr
      · exact Or.inl hl
      · exact Or.inr (Or.inr hr)
    · rename_i hsec
      split at h
      · obtain rfl : _ = l' := by simpa using h
        exact Or.inl hk
      · rcases ih h with hl | hr
        · rcases Dict.mem_keys_set.mp hl with rfl | hl
          · exact Or.inr (Or.inl (by simp [hsec]))
          · exact Or.inl hl
        · exact Or.inr (Or.inr hr)

/-! ## The steps -/

section Steps

variable {m m' : Manager F}

omit [JsonRuntime F] in
lemma Manager.get_of_uncached {k : PyStr} (h : CacheKey.str k ∉ m.cache.keys) (default : Json F) :
    m.get k default = default := by
  rw [Manager.get, Dict.get?_eq_none.mpr h]
  rfl

lemma Manager.sealed_iff : m.Sealed ↔
    (∀ k, m.Secret k → CacheKey.str k ∉ m.cache.keys) ∧ ∀ k ∈ m.sealed, k ∉ m.fileKeys :=
  ⟨fun h => ⟨h.uncached, h.file⟩,
    fun h => ⟨h.1, fun k hk => m.get_of_uncached (h.1 k hk), h.2⟩⟩

/-- The step leaves the cache file alone. -/
structure SameFile (m m' : Manager F) : Prop where
  file : m'.file = m.file
  sealed : m'.sealed = m.sealed

omit [DecidableEq F] in
lemma SameFile.fileKeys (h : SameFile m m') : m'.fileKeys = m.fileKeys := by
  rw [Manager.fileKeys, h.file, Manager.fileKeys]

/-- A fetch keeps the secrets out exactly when it does not make one of a key in the cache, provided
that it puts only keys of rows that are no secrets there. -/
lemma Manager.Sealed.fetch {rows : List (PyStr × Bool)} (h : m.Sealed)
    (hn : (rows.map Prod.fst).Nodup) (hf : SameFile m m') (hflags : m'.flags = mark m.flags rows)
    (hkeep : ∀ k ∈ m.cache.keys, k ∈ m'.cache.keys)
    (hnew : ∀ k, CacheKey.str k ∈ m'.cache.keys →
      CacheKey.str k ∈ m.cache.keys ∨ (k, false) ∈ rows) :
    m'.Sealed ↔ m.Unturned rows := by
  have hsecret : ∀ k, m'.Secret k ↔
      (k, true) ∈ rows ∨ k ∉ rows.map Prod.fst ∧ m.Secret k := by
    intro k
    rw [Manager.Secret, hflags, mark_get? hn]
    rfl
  rw [Manager.sealed_iff, hf.sealed, hf.fileKeys, and_iff_left h.file]
  constructor
  · rintro hm' ⟨k, b⟩ hp rfl hk
    exact hm' k ((hsecret k).mpr (Or.inl hp)) (hkeep _ hk)
  · intro hun k hk hmem
    rcases (hsecret k).mp hk with hp | ⟨hno, hold⟩
    · rcases hnew k hmem with hin | hin
      · exact hun _ hp rfl hin
      · -- the key has one row only
        have := List.inj_on_of_nodup_map hn hp hin rfl
        simp at this
    · rcases hnew k hmem with hin | hin
      · exact h.uncached k hold hin
      · exact hno (List.mem_map_of_mem hin)

/-- A step that takes nothing into the cache and fetches nothing keeps the secrets out. -/
lemma Manager.Sealed.quiet (h : m.Sealed) (hf : SameFile m m') (hflags : m'.flags = m.flags)
    (hcache : ∀ k ∈ m'.cache.keys, k ∈ m.cache.keys) : m'.Sealed := by
  refine Manager.sealed_iff.mpr ⟨fun k hk hmem => ?_, ?_⟩
  · refine h.uncached k ?_ (hcache _ hmem)
    rwa [Manager.Secret, hflags] at hk
  · rw [hf.sealed, hf.fileKeys]
    exact h.file

/-- A step that only puts keys into the cache keeps the secrets out exactly when none of these keys
is a secret. -/
lemma Manager.Sealed.put {N : CacheKey F → Prop} (h : m.Sealed) (hf : SameFile m m')
    (hflags : m'.flags = m.flags)
    (hcache : ∀ k, k ∈ m'.cache.keys ↔ N k ∨ k ∈ m.cache.keys) :
    m'.Sealed ↔ ∀ k, N (.str k) → ¬ m.Secret k := by
  have hsecret : ∀ k, m'.Secret k ↔ m.Secret k := fun k => by
    rw [Manager.Secret, hflags]
    rfl
  rw [Manager.sealed_iff, hf.sealed, hf.fileKeys, and_iff_left h.file]
  constructor
  · intro hm' k hk hsec
    exact hm' k ((hsecret k).mpr hsec) ((hcache _).mpr (Or.inl hk))
  · intro hnew k hk hmem
    rw [hsecret] at hk
    rcases (hcache _).mp hmem with hk' | hold
    · exact hnew k hk' hk
    · exact h.uncached k hk hold

/-- The keys that a reader finds after the file was written. -/
lemma Manager.mem_fileKeys_dump {s : PyStr} (hs : m.dump = .ok s) (hfile : m'.file = some s)
    {k : PyStr} : k ∈ m'.fileKeys ↔ ∃ p ∈ m.data, k = readName p := by
  have hloads := loads_dumps DumpOpts.default_ok hs
  have hmembers : ∀ l : List (PyStr × Json F), ∀ k,
      k ∈ (readMembers true l).map Prod.fst ↔ ∃ p ∈ l, k = readStr true p.1 := by
    intro l
    induction l with
    | nil => simp [readMembers]
    | cons p l ih => simp [readMembers, ih]
  have hkeys : m'.fileKeys =
      (Dict.ofList (readMembers true (m.data.map fun p => (p.2.name, p.2.value)))).keys := by
    rw [Manager.fileKeys, hfile, Option.map_some, hloads]
    rfl
  rw [hkeys, Dict.mem_keys_ofList, hmembers]
  simp [readName]

/-- A write keeps the secrets out exactly when no key of the cache but a string of that text is
printed as a secret. -/
lemma Manager.Sealed.writeCache [FloatKeys F] (h : m.Sealed) (replaced : Bool) :
    (m.writeCache replaced).Sealed ↔ Clean m (.writeCache replaced) := by
  have hquiet : ({ m with fileStep := .idle } : Manager F).Sealed :=
    h.quiet ⟨rfl, rfl⟩ rfl fun _ hk => hk
  cases replaced with
  | false => exact iff_of_true hquiet trivial
  | true =>
    simp only [Manager.writeCache, Clean]
    split
    · rename_i s hs hdump
      have hmem : ∀ k, k ∈ ({ m with
          file := some s, sealed := m.secrets, fileStep := .idle } : Manager F).fileKeys ↔
          ∃ p ∈ m.data, k = readName p := fun k => Manager.mem_fileKeys_dump hdump rfl
      rw [Manager.sealed_iff]
      constructor
      · rintro ⟨-, hfile⟩ - - p hp - hsec
        exact hfile _ (Manager.mem_secrets.mpr hsec) ((hmem _).mpr ⟨p, hp, rfl⟩)
      · intro hclean
        refine ⟨h.uncached, fun k hk hin => ?_⟩
        obtain ⟨p, hp, rfl⟩ := (hmem k).mp hin
        have hsec : m.Secret (readName p) := Manager.mem_secrets.mp hk
        by_cases hstr : p.1 = .str (readName p)
        · -- the string itself is not in the cache
          refine h.uncached _ hsec ?_
          rw [← hstr]
          exact Dict.keys_mem_of_mem (List.mem_filter.mp hp).1
        · exact hclean s hdump p hp hstr hsec
    · rename_i hno
      exact iff_of_true hquiet fun s hs => absurd hs (hno s rfl)

variable [FloatKeys F]

lemma Manager.Sealed.readCache (h : m.Sealed) (opened : Bool) :
    (m.readCache opened).Sealed ↔ Clean m (.readCache opened) := by
  have hquiet : ({ m with fileStep := .idle } : Manager F).Sealed :=
    h.quiet ⟨rfl, rfl⟩ rfl fun _ hk => hk
  cases opened with
  | false => exact iff_of_true hquiet trivial
  | true =>
    simp only [Manager.readCache, Clean]
    split
    · rename_i s _ hfile
      split
      · rename_i v hv
        refine Iff.trans (h.put (N := fun k => k ∈ (Cache.update .empty v).keys) ⟨rfl, rfl⟩ rfl
          fun k => Cache.mem_keys_update.trans or_comm) ?_
        constructor
        · intro hnew s' w hs' hw
          obtain rfl : s = s' := Option.some.inj (hfile.symm.trans hs')
          obtain rfl : v = w := Except.ok.inj (hv.symm.trans hw)
          exact hnew
        · exact fun hall => hall s v hfile hv
      · rename_i e hv
        refine iff_of_true hquiet fun s' w hs' hw => ?_
        obtain rfl : s = s' := Option.some.inj (hfile.symm.trans hs')
        simp [hv] at hw
    · rename_i hno
      exact iff_of_true hquiet fun s _ hs => absurd hs (hno s rfl)

lemma Manager.Sealed.pollRow {k : PyStr} {r : SettingRow F}
    {todo : List (PyStr × SettingRow F)} {latest : Option ℤ} (h : m.Sealed)
    (hp : m.poll = some ((k, r) :: todo, latest)) :
    (m.pollRow k r todo latest).Sealed ↔ Clean m .pollRow := by
  have hclean : Clean m .pollRow ↔
      (r.isSecret = false → (∃ v, decodeValue r.value = .ok v) → ¬ m.Secret k) := by
    simp only [Clean, hp, Option.some.injEq, Prod.mk.injEq, List.cons.injEq]
    constructor
    · exact fun hall => hall k r todo latest ⟨⟨⟨rfl, rfl⟩, rfl⟩, rfl⟩
    · rintro hone _ _ _ _ ⟨⟨⟨rfl, rfl⟩, rfl⟩, rfl⟩
      exact hone
  rw [hclean]
  simp only [Manager.pollRow]
  split
  · rename_i hsec
    exact iff_of_true (h.quiet ⟨rfl, rfl⟩ rfl fun _ hk => hk) (by simp [hsec])
  · rename_i hsec
    split
    · rename_i e hv
      exact iff_of_true (h.quiet ⟨rfl, rfl⟩ rfl fun _ hk => hk) (by simp [hv])
    · rename_i v hv
      refine Iff.trans (h.put (N := fun k' => k' = .str k) ⟨rfl, rfl⟩ rfl
        fun k' => Cache.mem_keys_put) ?_
      simp [hv, hsec]

variable [PyNumbers F]

lemma Manager.Sealed.handlePayload {payload : List (PyStr × Json F)} {key : Json F}
    (h : m.Sealed) : (m.handlePayload payload key).Sealed ↔
      ∀ k v, key = .str k → payload.lookup (text "value") = some v → ¬ m.Secret k := by
  unfold Manager.handlePayload
  cases hv : payload.lookup (text "value") with
  | some v =>
    cases hk : CacheKey.of? key with
    | none =>
      refine iff_of_true h ?_
      rintro k _ rfl
      simp [CacheKey.of?] at hk
    | some k =>
      have hkey : ∀ k', key = .str k' ↔ k = .str k' := fun k' => by
        rw [← CacheKey.of?_eq_str, hk, Option.some.injEq]
      refine Iff.trans (h.put (N := fun k' => k' = k) ⟨rfl, rfl⟩ rfl
        fun k' => Cache.mem_keys_put) ?_
      simp only [hkey, Option.some.injEq]
      exact ⟨fun hall k' _ e _ => hall k' e.symm, fun hall k' e => hall k' v e.symm rfl⟩
  | none =>
    refine iff_of_true ?_ (by simp)
    have hsame : ({ m with fileStep := .message } : Manager F).Sealed :=
      h.quiet ⟨rfl, rfl⟩ rfl fun _ hk => hk
    dsimp only
    split
    · split
      · exact h.quiet ⟨rfl, rfl⟩ rfl fun k hk => (Dict.mem_keys_pop.mp hk).1
      · split
        · exact hsame
        · exact h
    · exact hsame

lemma Manager.Sealed.handleMessage (h : m.Sealed) (data : PyStr) :
    (m.handleMessage data).Sealed ↔ Clean m (.handleMessage data) := by
  simp only [Manager.handleMessage, Clean]
  split
  · rename_i payload hp
    by_cases hkey : ((payload.lookup (text "key")).getD .null).truthy = true
    · rw [if_pos hkey, h.handlePayload]
      constructor
      · rintro hall payload' k v hp' hk - hv
        obtain rfl : payload = payload' := by simpa [hp] using hp'
        exact hall k v (by rw [hk]; rfl) hv
      · intro hall k v hk hv
        have hlook : payload.lookup (text "key") = some (.str k) := by
          cases hl : payload.lookup (text "key") with
          | none => simp [hl] at hk
          | some w => simpa [hl] using hk
        refine hall payload k v hp hlook ?_ hv
        rintro rfl
        simp [hlook, Json.truthy] at hkey
    · rw [if_neg hkey]
      refine iff_of_true h ?_
      rintro payload' k v hp' hk hne -
      obtain rfl : payload = payload' := by simpa [hp] using hp'
      simp [hk, Json.truthy, hne] at hkey
  · rename_i hno
    exact iff_of_true h fun payload _ _ hp => absurd hp (hno payload)

omit [PyNumbers F] in
lemma Manager.Sealed.loadFromPool {rows : Option (List (PyStr × SettingRow F))} (h : m.Sealed)
    (hn : ((rows.getD []).map Prod.fst).Nodup) :
    (m.loadFromPool rows).Sealed ↔ Clean m (.loadFromPool rows) := by
  cases rows with
  | none => exact iff_of_true h trivial
  | some rows =>
    have hflags : ((rowFlags rows).map Prod.fst).Nodup := by
      simpa [rowFlags, Function.comp_def] using hn
    refine h.fetch hflags ⟨rfl, rfl⟩ rfl (fun k hk => Cache.mem_keys_putAll.mpr (Or.inl hk)) ?_
    intro k hk
    rcases Cache.mem_keys_putAll.mp hk with hold | ⟨p, hp, hpk⟩
    · exact Or.inl hold
    · obtain rfl : k = p.1 := CacheKey.str.inj hpk
      have hkey : p.1 ∈ (m.loading rows).cache.keys := Dict.keys_mem_of_mem hp
      have hload : loadRows ⟨.empty, m.secretKeys, m.lastSeen⟩ rows = .ok (m.loading rows) ∨
          loadRows ⟨.empty, m.secretKeys, m.lastSeen⟩ rows = .error (m.loading rows) := by
        rw [Manager.loading]
        split
        · rename_i hl
          exact Or.inl hl
        · rename_i hl
          exact Or.inr hl
      rcases loadRows_keys hload hkey with hempty | hrow
      · simp at hempty
      · exact Or.inr hrow

omit [PyNumbers F] in
lemma Manager.Sealed.loadFromDb {rows : Option (List (PyStr × DbRow F))} (h : m.Sealed)
    (hn : ((rows.getD []).map Prod.fst).Nodup) :
    (m.loadFromDb rows).Sealed ↔ Clean m (.loadFromDb rows) := by
  cases rows with
  | none => exact iff_of_true (h.quiet ⟨rfl, rfl⟩ rfl fun _ hk => hk) trivial
  | some rows =>
    have hflags : ((rows.map fun p => (p.1, p.2.isSecret)).map Prod.fst).Nodup := by
      simpa [Function.comp_def] using hn
    refine h.fetch hflags ⟨rfl, rfl⟩ rfl (fun k hk => Cache.mem_keys_putAll.mpr (Or.inl hk)) ?_
    intro k hk
    rcases Cache.mem_keys_putAll.mp hk with hold | ⟨p, hp, hpk⟩
    · exact Or.inl hold
    · obtain ⟨q, hq, rfl⟩ := List.mem_map.mp hp
      obtain rfl : k = q.1 := CacheKey.str.inj hpk
      obtain ⟨hq, hsec⟩ := List.mem_filter.mp hq
      exact Or.inr (List.mem_map.mpr ⟨q, hq, by simpa using hsec⟩)

/-- One step keeps the secrets out exactly when it is clean. -/
theorem Manager.Sealed.step {op : Op F} (h : m.Sealed) (hs : m.step op = some m') :
    m'.Sealed ↔ Clean m op := by
  have hquiet : ∀ n : Manager F, SameFile m n → n.flags = m.flags → n.cache = m.cache →
      n.Sealed := fun n hf hflags hcache => h.quiet hf hflags fun k hk => hcache ▸ hk
  unfold Manager.step at hs
  split at hs
  · obtain rfl := Option.some.inj hs
    exact iff_of_true (hquiet _ ⟨rfl, rfl⟩ rfl rfl) trivial
  · obtain rfl := Option.some.inj hs
    exact h.writeCache _
  · obtain rfl := Option.some.inj hs
    exact h.writeCache _
  · obtain rfl := Option.some.inj hs
    exact h.readCache _
  · obtain ⟨hn, rfl⟩ : _ ∧ _ = m' := by simpa using hs
    exact h.loadFromPool hn
  · obtain ⟨hn, rfl⟩ : _ ∧ _ = m' := by simpa using hs
    exact h.loadFromDb hn
  · obtain rfl := Option.some.inj hs
    exact iff_of_true h trivial
  · rename_i rows _
    obtain ⟨⟨-, hn, -⟩, rfl⟩ : (_ ∧ _ ∧ _) ∧ _ = m' := by simpa using hs
    have hflags : ((rowFlags rows).map Prod.fst).Nodup := by
      simpa [rowFlags, Function.comp_def] using hn
    exact h.fetch hflags ⟨rfl, rfl⟩ rfl (fun _ hk => hk) fun _ hk => Or.inl hk
  · split at hs
    · rename_i k r todo latest hp
      obtain rfl := Option.some.inj hs
      exact h.pollRow hp
    · cases hs
  · split at hs
    · obtain rfl := Option.some.inj hs
      exact iff_of_true (hquiet _ ⟨rfl, rfl⟩ rfl rfl) trivial
    · cases hs
  · obtain rfl := Option.some.inj hs
    exact iff_of_true (hquiet _ ⟨rfl, rfl⟩ rfl rfl) trivial
  · obtain rfl := Option.some.inj hs
    exact h.handleMessage _
  · cases hs

/-- **The secrets stay out of the cache and of the cache file, in every state of a run, exactly when
all the steps of the run are clean.** -/
theorem sealed_iff_clean {ops : List (Op F)} (hi : managers.init m)
    (hr : managers.run m ops = some m') :
    managers.Throughout Manager.Sealed m ops ↔ managers.Along Clean m ops := by
  refine Machine.throughout_iff_along (fun m hm => ?_) (fun m op m' _ h hs => h.step hs) hi hr
  obtain ⟨-, -, -, -, -, hflags, hsealed⟩ := hm
  refine Manager.sealed_iff.mpr ⟨fun k hk => ?_, fun k hk => ?_⟩
  · simp [Manager.Secret, hflags] at hk
  · simp [hsealed] at hk

end Steps

section Example

/-- A manager that has not been started, without a cache file. -/
def newManager : Manager Empty := ⟨.empty, [], none, none, .idle, none, .empty, []⟩

/-- The key of a setting is loaded while it is no secret, and polled after it has become one. -/
def turnedRun : List (Op Empty) :=
  [.loadFromPool (some [(text "k", ⟨.text (text "1"), false, 1⟩)]),
    .pollOnce (some [(text "k", ⟨.text (text "2"), true, 2⟩)]), .pollRow, .pollEnd]

lemma turnedRun_ends : ((managers.run newManager turnedRun).map fun m =>
    (decide (m.Secret (text "k")), decide (CacheKey.str (text "k") ∈ m.cache.keys))) =
    some (true, true) := by
  decide +kernel

/-- A setting that turns secret stays in the cache. -/
theorem turned_secret_stays_cached : ¬ ∀ (m m' : Manager Empty) (ops : List (Op Empty)),
    managers.init m → managers.run m ops = some m' → managers.Throughout Manager.Sealed m ops := by
  intro hall
  obtain ⟨m, hrun, hm⟩ := Option.map_eq_some_iff.mp turnedRun_ends
  simp only [Prod.mk.injEq, decide_eq_true_eq] at hm
  have hsealed := (hall _ _ _ ⟨rfl, rfl, rfl, rfl, rfl, rfl, rfl⟩ hrun).last hrun
  exact hsealed.uncached _ hm.1 hm.2

/-- A load and a poll of a setting that was never a secret. -/
def plainRun : List (Op Empty) :=
  [.loadFromPool (some [(text "k", ⟨.text (text "1"), false, 1⟩), (text "s", ⟨.value .null, true, 1⟩)]),
    .pollOnce (some [(text "k", ⟨.text (text "2"), false, 2⟩)]), .pollRow, .pollEnd]

/-- The setting is cached, and the secret beside it is not. -/
lemma plainRun_ends : ((managers.run newManager plainRun).map fun m =>
    (decide (m.Secret (text "s")), m.cache.keys)) = some (true, [CacheKey.str (text "k")]) := by
  decide +kernel

/-- What the next row of the poll makes of the setting. -/
lemma plainRun_polls : ((managers.run newManager (plainRun.take 2)).map fun m =>
    (m.poll.map fun p => p.1.map Prod.fst, decide (m.Secret (text "k")))) =
      some (some [text "k"], false) := by
  decide +kernel

theorem plainRun_sealed : ∃ m', managers.run newManager plainRun = some m' ∧
    m'.Secret (text "s") ∧ CacheKey.str (text "k") ∈ m'.cache.keys ∧
    managers.Throughout Manager.Sealed newManager plainRun := by
  obtain ⟨m', hrun, hends⟩ := Option.map_eq_some_iff.mp plainRun_ends
  simp only [Prod.mk.injEq, decide_eq_true_eq] at hends
  refine ⟨m', hrun, hends.1, by simp [hends.2], ?_⟩
  refine (sealed_iff_clean ⟨rfl, rfl, rfl, rfl, rfl, rfl, rfl⟩ hrun).mpr ?_
  obtain ⟨m, hpolled, hm⟩ := Option.map_eq_some_iff.mp plainRun_polls
  obtain ⟨m₁, h₁, hrest⟩ := Machine.run_cons.mp hpolled
  obtain ⟨m₂, h₂, hlast⟩ := Machine.run_cons.mp hrest
  obtain rfl : m₂ = m := Option.some.inj hlast
  have heq : ∀ {m u u' : Manager Empty} {op : Op Empty}, managers.step m op = some u →
      managers.step m op = some u' → u' = u := fun h h' => Option.some.inj (h'.symm.trans h)
  refine ⟨fun p _ _ => List.not_mem_nil, fun u₁ hu₁ => ?_⟩
  obtain rfl := heq h₁ hu₁
  refine ⟨fun p hp htrue => ?_, fun u₂ hu₂ => ?_⟩
  · obtain rfl := List.mem_singleton.mp hp
    cases htrue
  · obtain rfl := heq h₂ hu₂
    refine ⟨fun k r todo latest hp _ _ => ?_, fun _ _ => ⟨trivial, fun _ _ => trivial⟩⟩
    simp only [hp, Option.map_some, List.map_cons, Prod.mk.injEq, Option.some.injEq,
      List.cons.injEq, decide_eq_false_iff_not] at hm
    rw [hm.1.1]
    exact hm.2

end Example

end Omkit.Settings
