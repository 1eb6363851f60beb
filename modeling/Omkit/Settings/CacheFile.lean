import Omkit.Lib.Json.Injective
import Omkit.Settings.Manager

/-!
# The cache file step by step

`_write_cache` opens a temporary file, writes the text of the cache into it piece by piece, closes
it, restricts its mode and moves it over the cache file, and any of these steps may raise.  Only the
move touches the cache file, and by then the temporary file holds the whole text; so the cache file
holds what the last successful call wrote, whatever the calls after it have left behind.
-/

namespace Omkit.Settings

open Lib

variable {F : Type}

/-! ## The settings -/

/-- A map of settings: string keys, and values that JSON text can name. -/
structure SettingMap (F : Type) where
  map : Dict PyStr (Json F)
  named : ∀ p ∈ map.items, readStr true p.1 = p.1 ∧ readBack true p.2 = p.2

/-- Strings without surrogates can be named. -/
def SettingMap.ofWf (d : Dict PyStr (Json F)) (h : WfMembers d.items) : SettingMap F where
  map := d
  named p hp :=
    ⟨readStr_wellFormed true (member_wf_of_mem h p hp).1,
      readBack_wf true p.2 (member_wf_of_mem h p hp).2⟩

/-- The settings as a JSON object. -/
def SettingMap.toJson (d : SettingMap F) : Json F := .obj d.map.items

/-- The settings as the cache of a manager. -/
def SettingMap.toCache (d : SettingMap F) : Cache F where
  items := d.map.items.map fun p => (.str p.1, ⟨p.1, p.2⟩)
  nodup := by
    have hkeys : ((d.map.items.map Prod.fst).map (CacheKey.str (F := F))).Nodup :=
      d.map.nodup.map fun _ _ h => CacheKey.str.inj h
    rw [List.map_map] at hkeys ⊢
    exact hkeys

/-- The settings under other keys than these. -/
def SettingMap.without (d : SettingMap F) (keys : List PyStr) : SettingMap F where
  map := ⟨d.map.items.filter fun p => p.1 ∉ keys, d.map.nodup.sublist (List.filter_sublist.map _)⟩
  named p hp := d.named p (List.mem_of_mem_filter hp)

/-- JSON text names the settings. -/
lemma SettingMap.readBack_toJson (d : SettingMap F) : readBack true d.toJson = d.toJson := by
  have hmembers : readMembers true d.map.items = d.map.items := by
    rw [readMembers_eq_map]
    refine (List.map_congr_left fun p hp => ?_).trans (List.map_id _)
    obtain ⟨hkey, hvalue⟩ := d.named p hp
    rw [hkey, hvalue]
    rfl
  rw [toJson, readBack, hmembers, Dict.items_ofList d.map.nodup]

/-! ## The machine -/

/-- Where a call of `_write_cache` is. -/
inductive Stage
  | idle
  /-- The temporary file is open, and this much of the text has still to be written. -/
  | writing (todo : PyStr)
  /-- The temporary file is written and closed. -/
  | closed
  /-- Its mode has been set. -/
  | restricted

/-- A manager and its two files. -/
structure Disk (F : Type) where
  /-- `_cache`. -/
  cache : SettingMap F
  /-- `_secret_keys`. -/
  secretKeys : List PyStr
  /-- The text at `_cache_path`, if there is such a file. -/
  file : Option PyStr
  /-- The text at `_cache_path + ".tmp"`. -/
  tmp : Option PyStr
  stage : Stage

/-- What may happen next. -/
inductive DiskOp (F : Type)
  /-- The cache and the secret keys are changed. -/
  | change (cache : SettingMap F) (secretKeys : List PyStr)
  /-- `open(tmp_path, "w")`. -/
  | openTmp
  /-- `json.dump` writes `n` more characters. -/
  | write (n : ℕ)
  /-- The `with` block ends. -/
  | close
  /-- `os.chmod`. -/
  | chmod
  /-- `os.replace`. -/
  | replace
  /-- The next step of `_write_cache` raises. -/
  | fail

/-- Does the step move the temporary file over the cache file? -/
def DiskOp.replaces : DiskOp F → Bool
  | .replace => true
  | _ => false

namespace Disk

/-- `data` of `_write_cache`. -/
def data (s : Disk F) : SettingMap F := s.cache.without s.secretKeys

variable [JsonRuntime F]

/-- The text that `_write_cache` writes. -/
def dump (s : Disk F) : Except StdExc PyStr := dumps .default s.data.toJson

/-- One step.  A value that the encoder refuses raises before the file is closed. -/
def step (s : Disk F) (op : DiskOp F) : Option (Disk F) :=
  match s.stage, op with
  | .idle, .change cache secretKeys => some { s with cache, secretKeys }
  | .idle, .openTmp =>
    some { s with tmp := some [], stage := .writing (render .default s.data.toJson) }
  | .writing todo, .write n =>
    some { s with tmp := s.tmp.map (· ++ todo.take n), stage := .writing (todo.drop n) }
  | .writing [], .close => if s.dump.isOk then some { s with stage := .closed } else none
  | .closed, .chmod => some { s with stage := .restricted }
  | .restricted, .replace =>
    some { s with file := s.tmp, tmp := none, stage := .idle }
  | _, .fail => some { s with stage := .idle }
  | _, _ => none

/-- A manager between two calls, beside any files. -/
def machine : Machine (Disk F) (DiskOp F) where
  init s := s.stage = .idle
  step := step

/-- What one step can do. -/
inductive Move (s : Disk F) : DiskOp F → Disk F → Prop
  | change {cache : SettingMap F} {secretKeys : List PyStr} (hidle : s.stage = .idle) :
    Move s (.change cache secretKeys) { s with cache, secretKeys }
  | openTmp (hidle : s.stage = .idle) : Move s .openTmp { s with
      tmp := some [], stage := .writing (render .default s.data.toJson) }
  | write {todo : PyStr} {n : ℕ} (hwriting : s.stage = .writing todo) :
    Move s (.write n) { s with
      tmp := s.tmp.map (· ++ todo.take n), stage := .writing (todo.drop n) }
  | close {t : PyStr} (hwriting : s.stage = .writing []) (hdump : s.dump = .ok t) :
    Move s .close { s with stage := .closed }
  | chmod (hclosed : s.stage = .closed) : Move s .chmod { s with stage := .restricted }
  | replace (hrestricted : s.stage = .restricted) :
    Move s .replace { s with file := s.tmp, tmp := none, stage := .idle }
  | fail : Move s .fail { s with stage := .idle }

lemma move_of_step {s s' : Disk F} {op : DiskOp F} (hs : s.step op = some s') : s.Move op s' := by
  unfold step at hs
  split at hs
  · next hidle =>
    obtain rfl := Option.some.inj hs
    exact .change hidle
  · next hidle =>
    obtain rfl := Option.some.inj hs
    exact .openTmp hidle
  · next hwriting =>
    obtain rfl := Option.some.inj hs
    exact .write hwriting
  · next hwriting =>
    cases hdump : s.dump with
    | error e =>
      rw [hdump] at hs
      cases hs
    | ok t =>
      rw [hdump] at hs
      obtain rfl := Option.some.inj hs
      exact .close hwriting hdump
  · next hclosed =>
    obtain rfl := Option.some.inj hs
    exact .chmod hclosed
  · next hrestricted =>
    obtain rfl := Option.some.inj hs
    exact .replace hrestricted
  · obtain rfl := Option.some.inj hs
    exact .fail
  · cases hs

/-- Only the move touches the cache file. -/
lemma step_file {s s' : Disk F} {op : DiskOp F} (hs : s.step op = some s') :
    op.replaces = false ∧ s'.file = s.file ∨
      op.replaces = true ∧ s.stage = .restricted ∧ s'.file = s.tmp := by
  cases move_of_step hs with
  | replace hrestricted => exact Or.inr ⟨rfl, hrestricted, rfl⟩
  | change | openTmp | write | close | chmod | fail => exact Or.inl ⟨rfl, rfl⟩

/-- What the temporary file holds. -/
def Staged (s : Disk F) : Prop :=
  match s.stage with
  | .idle => True
  | .writing todo => ∃ t, s.tmp = some t ∧ t ++ todo = render .default s.data.toJson
  | .closed | .restricted => ∃ t, s.dump = .ok t ∧ s.tmp = some t

/-- Every step keeps what is said of the temporary file. -/
lemma Staged.step {s s' : Disk F} {op : DiskOp F} (hstaged : s.Staged)
    (hs : s.step op = some s') : s'.Staged := by
  unfold Staged at hstaged
  cases move_of_step hs with
  | change hidle =>
    -- the cache is changed between two calls
    simp only [Staged, hidle]
  | openTmp => exact ⟨[], rfl, rfl⟩
  | @write todo n hwriting =>
    rw [hwriting] at hstaged
    obtain ⟨t, htmp, htext⟩ := hstaged
    refine ⟨t ++ todo.take n, by rw [htmp]; rfl, ?_⟩
    rw [List.append_assoc, List.take_append_drop]
    exact htext
  | @close t' hwriting hdump =>
    -- nothing is left to write, so the file holds the whole text
    rw [hwriting] at hstaged
    obtain ⟨t, htmp, htext⟩ := hstaged
    rw [List.append_nil] at htext
    obtain rfl : t' = t := (dumps_eq_ok.mp hdump).2.trans htext.symm
    exact ⟨t', hdump, htmp⟩
  | chmod hclosed =>
    rw [hclosed] at hstaged
    exact hstaged
  | replace => trivial
  | fail => trivial

end Disk

/-! ## What a run is to leave behind -/

/-- The two fields, and what the last call of `_write_cache` that succeeded was to write. -/
structure Recorded (F : Type) where
  cache : SettingMap F
  secretKeys : List PyStr
  written : Option (SettingMap F)

/-- What is recorded of an operation: a call has succeeded once it moves the temporary file. -/
def Recorded.after (r : Recorded F) : DiskOp F → Recorded F
  | .change cache secretKeys => { r with cache, secretKeys }
  | .replace => { r with written := some (r.cache.without r.secretKeys) }
  | .openTmp | .write _ | .close | .chmod | .fail => r

/-- The settings without the secret ones as of the last `_write_cache` among the operations that
succeeded. -/
def lastWritten (cache : SettingMap F) (secretKeys : List PyStr) (ops : List (DiskOp F)) :
    Option (SettingMap F) :=
  (ops.foldl Recorded.after ⟨cache, secretKeys, none⟩).written

namespace Disk

variable [JsonRuntime F]

/-- What the two files hold after a run with a record. -/
structure Kept (file : Option PyStr) (r : Recorded F) (s : Disk F) : Prop where
  cache : s.cache = r.cache
  secretKeys : s.secretKeys = r.secretKeys
  untouched : r.written = none → s.file = file
  written : ∀ d, r.written = some d → ∃ t, dumps .default d.toJson = .ok t ∧ s.file = some t
  staged : s.Staged

/-- A step that leaves the record alone. -/
lemma Kept.frame {file : Option PyStr} {r : Recorded F} {s s' : Disk F} (h : s.Kept file r)
    (hcache : s'.cache = s.cache) (hkeys : s'.secretKeys = s.secretKeys) (hfile : s'.file = s.file)
    (hstaged : s'.Staged) : s'.Kept file r where
  cache := hcache.trans h.cache
  secretKeys := hkeys.trans h.secretKeys
  untouched hw := hfile.trans (h.untouched hw)
  written d hd := hfile ▸ h.written d hd
  staged := hstaged

/-- Every step keeps what is said of the two files. -/
lemma Kept.step {file : Option PyStr} {r : Recorded F} {s s' : Disk F} {op : DiskOp F}
    (h : s.Kept file r) (hs : s.step op = some s') : s'.Kept file (r.after op) := by
  have hstaged' : s'.Staged := h.staged.step hs
  have hstaged := h.staged
  unfold Staged at hstaged
  cases move_of_step hs with
  | change => exact ⟨rfl, rfl, h.untouched, h.written, hstaged'⟩
  | replace hrestricted =>
    -- the temporary file holds the text of the fields as they are
    rw [hrestricted] at hstaged
    obtain ⟨t, hdump, htmp⟩ := hstaged
    refine ⟨h.cache, h.secretKeys, nofun, fun d hd => ⟨t, ?_, htmp⟩, hstaged'⟩
    obtain rfl : r.cache.without r.secretKeys = d := Option.some.inj hd
    rw [← h.cache, ← h.secretKeys]
    exact hdump
  | openTmp | write | close | chmod | fail => exact h.frame rfl rfl rfl hstaged'

lemma Kept.run {file : Option PyStr} {r : Recorded F} {s s' : Disk F} {ops : List (DiskOp F)}
    (h : s.Kept file r) (hr : machine.run s ops = some s') :
    s'.Kept file (ops.foldl Recorded.after r) := by
  induction ops generalizing s r with
  | nil =>
    obtain rfl : s = s' := by simpa using hr
    exact h
  | cons op ops ih =>
    obtain ⟨t, ht, hr⟩ := Machine.run_cons.mp hr
    exact ih (h.step ht) hr

/-- Nothing is written before the first call. -/
lemma Kept.init {s : Disk F} (hs : machine.init s) :
    s.Kept s.file ⟨s.cache, s.secretKeys, none⟩ := by
  refine ⟨rfl, rfl, fun _ => rfl, nofun, ?_⟩
  have hidle : s.stage = .idle := hs
  simp only [Staged, hidle]

end Disk

/-! ## Reading the file -/

variable [DecidableEq F]

lemma Cache.items_putAll {c : Cache F} {l : List (PyStr × Json F)}
    (h : (c.keys ++ l.map fun p : PyStr × Json F => CacheKey.str p.1).Nodup) :
    (c.putAll l).items = c.items ++ l.map fun p => (.str p.1, ⟨p.1, p.2⟩) := by
  induction l generalizing c with
  | nil => exact (List.append_nil _).symm
  | cons p l ih =>
    have hp : CacheKey.str p.1 ∉ c.keys := fun hk =>
      (List.disjoint_of_nodup_append h) hk (by simp)
    have hput : (c.put (.str p.1) p.1 p.2).items = c.items ++ [(.str p.1, ⟨p.1, p.2⟩)] := by
      simp [Cache.put, Dict.set, hp, Dict.get?_eq_none.mpr hp]
    have hkeys : (c.put (.str p.1) p.1 p.2).keys = c.keys ++ [.str p.1] := by
      simp [Dict.keys, hput]
    show ((c.put (.str p.1) p.1 p.2).putAll l).items = _
    rw [ih, hput, List.append_assoc, List.singleton_append, List.map_cons]
    rw [hkeys, List.append_assoc]
    simpa using h

/-- An empty cache that is updated with the settings. -/
lemma SettingMap.putAll_empty (d : SettingMap F) :
    Cache.putAll Dict.empty d.map.items = d.toCache := by
  have hn : ((Dict.empty : Cache F).keys ++
      d.map.items.map fun p : PyStr × Json F => CacheKey.str p.1).Nodup := by
    have hnodup := d.toCache.nodup
    rw [SettingMap.toCache, List.map_map] at hnodup
    exact hnodup
  have hitems : (Cache.putAll Dict.empty d.map.items).items = d.toCache.items :=
    Cache.items_putAll hn
  cases hc : Cache.putAll Dict.empty d.map.items
  rw [hc] at hitems
  cases hitems
  rfl

/-- A new manager beside a file. -/
def fresh (file : Option PyStr) : Manager F where
  cache := .empty
  secretKeys := []
  lastSeen := none
  file := file
  fileStep := .failed
  poll := none
  flags := .empty
  sealed := []

variable [JsonRuntime F]

/-- The manager of a disk, between its polls and messages. -/
def Disk.manager (s : Disk F) : Manager F :=
  { fresh s.file with cache := s.cache.toCache, secretKeys := s.secretKeys, fileStep := .idle }

lemma Disk.manager_dump (s : Disk F) : s.manager.dump = s.dump := by
  have hdata : (s.manager.data.map fun p => (p.2.name, p.2.value)) = s.data.map.items := by
    show ((s.cache.map.items.map fun p => ((.str p.1 : CacheKey F), (⟨p.1, p.2⟩ : Entry F))).filter
      fun p => ∀ k ∈ s.secretKeys, p.1 ≠ .str k).map (fun p => (p.2.name, p.2.value)) =
        s.cache.map.items.filter fun p => p.1 ∉ s.secretKeys
    rw [List.filter_map, List.map_map]
    refine (List.map_id _).trans (List.filter_congr fun p _ => ?_)
    simp only [Function.comp_apply, ne_eq, CacheKey.str.injEq, decide_eq_decide]
    exact ⟨fun h hp => h p.1 hp rfl, fun h k hk hpk => h (hpk ▸ hk)⟩
  rw [Manager.dump, hdata]
  rfl

/-- **The steps of a call are one `writeCache` of the manager**: the move replaces the file as it
does, and every other step, or its failure, leaves the file as it was. -/
theorem Disk.file_step {s s' : Disk F} {op : DiskOp F} (hstaged : s.Staged)
    (hs : s.step op = some s') : s'.file = (s.manager.writeCache op.replaces).file := by
  rcases step_file hs with ⟨hop, hfile⟩ | ⟨hop, hrestricted, hfile⟩
  · rw [hop, hfile]
    rfl
  · unfold Staged at hstaged
    rw [hrestricted] at hstaged
    obtain ⟨t, hdump, htmp⟩ := hstaged
    rw [hop, hfile, htmp]
    simp only [Manager.writeCache, manager_dump, hdump]

variable [FloatKeys F]

/-- A new manager reads the settings that were written. -/
lemma readCache_dumps {d : SettingMap F} {t : PyStr} (h : dumps .default d.toJson = .ok t) :
    ((fresh (some t)).readCache true : Manager F).cache = d.toCache := by
  have hloads := loads_dumps DumpOpts.default_ok h
  have hread : readBack DumpOpts.default.ensureAscii d.toJson = d.toJson := d.readBack_toJson
  rw [hread] at hloads
  simp only [Manager.readCache, fresh, hloads]
  exact d.putAll_empty

/-- **The cache file holds the settings without the secret ones as of the last `_write_cache` that
succeeded, and a new manager loads them.** -/
theorem cacheFile_all_or_nothing {s s' : Disk F} {ops : List (DiskOp F)}
    (hs : Disk.machine.init s) (hr : Disk.machine.run s ops = some s') :
    (lastWritten s.cache s.secretKeys ops = none → s'.file = s.file) ∧
      ∀ d, lastWritten s.cache s.secretKeys ops = some d →
        ∃ t, dumps .default d.toJson = .ok t ∧ s'.file = some t ∧
          ((fresh s'.file).readCache true : Manager F).cache = d.toCache := by
  have hkept := (Disk.Kept.init hs).run hr
  refine ⟨hkept.untouched, fun d hd => ?_⟩
  obtain ⟨t, hdump, hfile⟩ := hkept.written d hd
  refine ⟨t, hdump, hfile, ?_⟩
  rw [hfile]
  exact readCache_dumps hdump

section Example

/-- A setting and a secret. -/
def darkItems : List (PyStr × Json Empty) :=
  [(text "theme", .str (text "dark")), (text "api_key", .str (text "k-1"))]

lemma darkItems_nodup : (darkItems.map Prod.fst).Nodup := by decide

lemma darkItems_wf : WfMembers darkItems :=
  ⟨wellFormed_text _, wellFormed_text _, wellFormed_text _, wellFormed_text _, trivial⟩

/-- A cache of both. -/
def dark : SettingMap Empty := .ofWf ⟨darkItems, darkItems_nodup⟩ darkItems_wf

/-- A manager without settings, beside a file of an older version. -/
def blank : Disk Empty := ⟨⟨.empty, fun p hp => by cases hp⟩, [], some (text "[]"), none, .idle⟩

/-- A call that fails while it writes, one that succeeds, and one that has written two characters
of other settings. -/
def tornRun : List (DiskOp Empty) :=
  [.change dark [text "api_key"], .openTmp, .write 4, .fail, .openTmp, .write 9, .write 90, .close,
    .chmod, .replace, .change dark [text "theme"], .openTmp, .write 2]

/-- The file holds the setting of the call that succeeded, without the secret. -/
theorem tornRun_keeps_theme : ∃ s, Disk.machine.run blank tornRun = some s ∧
    s.file = some (text "\x7b\"theme\": \"dark\"\x7d") ∧
    ((fresh s.file).readCache true : Manager Empty).cache.items =
      [(.str (text "theme"), ⟨text "theme", .str (text "dark")⟩)] := by
  have hrun : (Disk.machine.run blank tornRun).isSome = true := by rfl
  obtain ⟨s, hs⟩ := Option.isSome_iff_exists.mp hrun
  have hlast : lastWritten blank.cache blank.secretKeys tornRun =
      some (dark.without [text "api_key"]) := rfl
  have hdump : dumps .default (dark.without [text "api_key"]).toJson =
      .ok (text "\x7b\"theme\": \"dark\"\x7d") := by decide +kernel
  have hinit : Disk.machine.init blank := rfl
  obtain ⟨t, ht, hfile, hcache⟩ := (cacheFile_all_or_nothing hinit hs).2 _ hlast
  obtain rfl := Except.ok.inj (hdump.symm.trans ht)
  exact ⟨s, hs, hfile, congrArg Dict.items hcache⟩

end Example

end Omkit.Settings
