import Omkit.Lib.Json.Scan

/-!
# Indented text

`dumps` with an indentation: every item stands on a line of its own.  The decoder reads the text
back as it reads the text on one line, since all that was added is whitespace between tokens.
-/

namespace Omkit.Lib

variable {F : Type} [JsonRuntime F]

/-- A line break, and the spaces of a nesting level. -/
def newline (n level : ℕ) : PyStr := .scalar '\n' :: List.replicate (n * level) (.scalar ' ')

/-- The options with an indentation, and `ensure_ascii=False`. -/
def DumpOpts.indented : DumpOpts := ⟨text ",", text ": ", false⟩

lemma DumpOpts.indented_ok : DumpOpts.indented.Ok := ⟨⟨_, rfl, by decide⟩, ⟨_, rfl, by decide⟩⟩

mutual

/-- The text of a value at a nesting level, indented by `n` spaces a level. -/
def renderIndent (o : DumpOpts) (n level : ℕ) : Json F → PyStr
  | .arr (v :: l) => .scalar '[' ::
    (newline n (level + 1) ++ (renderIndent o n (level + 1) v ++ indentItems o n level l))
  | .obj (m :: l) => .scalar '{' :: (newline n (level + 1) ++ (strText o.ensureAscii m.1 ++
    (o.keySep ++ (renderIndent o n (level + 1) m.2 ++ indentMembers o n level l))))
  | v => render o v

/-- The items of an array after the first, and the closing bracket. -/
def indentItems (o : DumpOpts) (n level : ℕ) : List (Json F) → PyStr
  | [] => newline n level ++ [.scalar ']']
  | v :: l => o.itemSep ++
    (newline n (level + 1) ++ (renderIndent o n (level + 1) v ++ indentItems o n level l))

/-- The members of an object after the first, and the closing brace. -/
def indentMembers (o : DumpOpts) (n level : ℕ) : List (PyStr × Json F) → PyStr
  | [] => newline n level ++ [.scalar '}']
  | m :: l => o.itemSep ++ (newline n (level + 1) ++ (strText o.ensureAscii m.1 ++
    (o.keySep ++ (renderIndent o n (level + 1) m.2 ++ indentMembers o n level l))))

end

/-- `json.dumps(v, indent=n, sort_keys=True, ensure_ascii=False)`.  The encoder that indents is
written in Python, and recurses to a `depth` of its own. -/
def dumpsIndent (depth n : ℕ) (v : Json F) : Except StdExc PyStr := do
  check depth (sortKeys v)
  pure (renderIndent DumpOpts.indented n 0 (sortKeys v))

example : dumpsIndent 9 2 (.obj [(text "b", .arr []), (text "a", .arr [.null])] : Json Empty) =
    .ok (text "\x7b\n  \"a\": [\n    null\n  ],\n  \"b\": []\n\x7d") := by decide

/-! ## Reading back -/

lemma newline_ws (n level : ℕ) : ∀ x ∈ newline n level, isWs x = true := by
  intro x hx
  rcases List.mem_cons.mp hx with rfl | hx
  · rfl
  · rw [List.eq_of_mem_replicate hx]
    rfl

lemma skipWs_newline (n level : ℕ) (s : PyStr) : skipWs (newline n level ++ s) = skipWs s :=
  skipWs_append (newline_ws n level) s

lemma stops_newline (n level : ℕ) (s : PyStr) : Stops (newline n level ++ s) :=
  stops_cons (by decide) _

variable {o : DumpOpts}

lemma renderIndent_opens (o : DumpOpts) (n level : ℕ) (v : Json F) :
    Opens (renderIndent o n level v) := by
  cases v with
  | arr l => cases l <;> exact ⟨_, _, rfl, by decide⟩
  | obj l => cases l <;> exact ⟨_, _, rfl, by decide⟩
  | _ =>
    rw [renderIndent]
    · exact render_opens o _
    all_goals simp

lemma stops_indentItems (n level : ℕ) (r : PyStr) (ho : o.Ok) (l : List (Json F)) :
    Stops (indentItems o n level l ++ r) := by
  cases l with
  | nil => rw [indentItems, List.append_assoc]; exact stops_newline n level _
  | cons v l =>
    obtain ⟨w, hw, -⟩ := ho.item
    rw [indentItems, hw]
    exact stops_cons (by decide) _

lemma stops_indentMembers (n level : ℕ) (r : PyStr) (ho : o.Ok) (l : List (PyStr × Json F)) :
    Stops (indentMembers o n level l ++ r) := by
  cases l with
  | nil => rw [indentMembers, List.append_assoc]; exact stops_newline n level _
  | cons m l =>
    obtain ⟨w, hw, -⟩ := ho.item
    rw [indentMembers, hw]
    exact stops_cons (by decide) _

/-- After an item there is a separator, and a new line before the next one. -/
lemma skipWs_itemSep (n level : ℕ) (ho : o.Ok) (s : PyStr) :
    ∃ t, skipWs (o.itemSep ++ (newline n level ++ s)) = .scalar ',' :: t ∧ skipWs t = skipWs s := by
  obtain ⟨w, hw, hall⟩ := ho.item
  refine ⟨w ++ (newline n level ++ s), by rw [hw]; exact skipWs_cons (by decide) _, ?_⟩
  rw [skipWs_append hall, skipWs_newline]

lemma scanKey_strText (ho : o.Ok) {k t : PyStr} (ht : Opens t) :
    scanKey (strText o.ensureAscii k ++ (o.keySep ++ t)) = .ok (readStr o.ensureAscii k, t) := by
  obtain ⟨w, hw, hall⟩ := ho.key
  have hcolon : skipWs (.scalar ':' :: (w ++ t)) = .scalar ':' :: (w ++ t) :=
    skipWs_cons (by decide) _
  rw [strText_append, hw, List.cons_append, scanKey, scanString_strText]
  simp only [hcolon, skipWs_append hall, ht.skipWs]

/-- With enough fuel the indented value is read back, whatever stops the text after it. -/
def IndentReads (o : DumpOpts) (n : ℕ) (v : Json F) : Prop :=
  ∀ (d level : ℕ) (r : PyStr), check d v = .ok () → Stops r → ∃ fuel,
    scanValue d (renderIndent o n level v ++ r) fuel = .ok (readBack o.ensureAscii v, r)

/-- The items of an indented array are read back. -/
lemma scanItems_renderIndent (ho : o.Ok) {n d : ℕ} (level : ℕ) {v : Json F} {l : List (Json F)}
    (hread : ∀ w ∈ v :: l, IndentReads o n w) (hc : checkItems d (v :: l) = .ok ()) (r : PyStr) :
    ∃ fuel, scanItems d (renderIndent o n (level + 1) v ++ (indentItems o n level l ++ r)) fuel =
      .ok (readItems o.ensureAscii (v :: l), r) := by
  induction l generalizing v with
  | nil =>
    obtain ⟨fuel, h⟩ := hread v List.mem_cons_self d (level + 1) _ (checkItems_cons hc).1
      (stops_indentItems n level r ho ([] : List (Json F)))
    refine ⟨fuel + 1, scanItems_close h ?_⟩
    rw [indentItems, List.append_assoc, skipWs_newline]
    exact skipWs_cons (by decide) _
  | cons w l ih =>
    obtain ⟨hcv, hcl⟩ := checkItems_cons hc
    obtain ⟨hv, hl⟩ := List.forall_mem_cons.mp hread
    obtain ⟨fuel, h⟩ := hv d (level + 1) _ hcv (stops_indentItems n level r ho (w :: l))
    obtain ⟨fuel', h'⟩ := ih hl hcl
    obtain ⟨t, hcomma, hskip⟩ := skipWs_itemSep n (level + 1) ho
      (renderIndent o n (level + 1) w ++ (indentItems o n level l ++ r))
    have hopen := ((renderIndent_opens o n (level + 1) w).append (indentItems o n level l ++ r)).skipWs
    have happ : indentItems o n level (w :: l) ++ r = o.itemSep ++ (newline n (level + 1) ++
        (renderIndent o n (level + 1) w ++ (indentItems o n level l ++ r))) := by
      simp only [indentItems, List.append_assoc]
    refine ⟨max fuel fuel' + 1, ?_⟩
    rw [scanItems_comma (scanValue_mono h (le_max_left _ _)) (by rw [happ]; exact hcomma), hskip,
      hopen, scanItems_mono h' (le_max_right _ _), readItems]
    rfl

/-- The members of an indented object are read back. -/
lemma scanMembers_renderIndent (ho : o.Ok) {n d : ℕ} (level : ℕ) {m : PyStr × Json F}
    {l : List (PyStr × Json F)} (hread : ∀ x ∈ m :: l, IndentReads o n x.2)
    (hc : checkMembers d (m :: l) = .ok ()) (r : PyStr) : ∃ fuel,
      scanMembers d (strText o.ensureAscii m.1 ++ (o.keySep ++ (renderIndent o n (level + 1) m.2 ++
        (indentMembers o n level l ++ r)))) fuel = .ok (readMembers o.ensureAscii (m :: l), r) := by
  induction l generalizing m with
  | nil =>
    obtain ⟨fuel, h⟩ := hread m List.mem_cons_self d (level + 1) _ (checkMembers_cons hc).1
      (stops_indentMembers n level r ho ([] : List (PyStr × Json F)))
    have hkey := scanKey_strText ho (k := m.1)
      ((renderIndent_opens o n (level + 1) m.2).append
        (indentMembers o n level ([] : List (PyStr × Json F)) ++ r))
    refine ⟨fuel + 1, scanMembers_close hkey h ?_⟩
    rw [indentMembers, List.append_assoc, skipWs_newline]
    exact skipWs_cons (by decide) _
  | cons m' l ih =>
    obtain ⟨hcv, hcl⟩ := checkMembers_cons hc
    obtain ⟨hv, hl⟩ := List.forall_mem_cons.mp hread
    obtain ⟨fuel, h⟩ := hv d (level + 1) _ hcv (stops_indentMembers n level r ho (m' :: l))
    obtain ⟨fuel', h'⟩ := ih hl hcl
    have hkey := scanKey_strText ho (k := m.1)
      ((renderIndent_opens o n (level + 1) m.2).append (indentMembers o n level (m' :: l) ++ r))
    obtain ⟨t, hcomma, hskip⟩ := skipWs_itemSep n (level + 1) ho
      (strText o.ensureAscii m'.1 ++ (o.keySep ++ (renderIndent o n (level + 1) m'.2 ++
        (indentMembers o n level l ++ r))))
    have hopen : ∀ s, skipWs (strText o.ensureAscii m'.1 ++ s) = strText o.ensureAscii m'.1 ++ s :=
      fun s => skipWs_cons (by decide) _
    have happ : indentMembers o n level (m' :: l) ++ r = o.itemSep ++ (newline n (level + 1) ++
        (strText o.ensureAscii m'.1 ++ (o.keySep ++ (renderIndent o n (level + 1) m'.2 ++
          (indentMembers o n level l ++ r))))) := by
      simp only [indentMembers, List.append_assoc]
    refine ⟨max fuel fuel' + 1, ?_⟩
    rw [scanMembers_comma hkey (scanValue_mono h (le_max_left _ _)) (by rw [happ]; exact hcomma),
      hskip, hopen, scanMembers_mono h' (le_max_right _ _), readMembers]
    rfl

/-- Every value is read back. -/
theorem indentReads (ho : o.Ok) (n : ℕ) (v : Json F) : IndentReads o n v := by
  induction v using Json.induction with
  | leaf v hv =>
    intro d level r hc hr
    have hsame : renderIndent o n level v = render o v := by
      cases v <;> first | rfl | cases hv
    rw [hsame]
    exact ⟨_, scanValue_render ho d v hc _ le_rfl r hr⟩
  | arr l ih =>
    intro d level r hc hr
    cases l with
    | nil => exact ⟨_, scanValue_render ho d _ hc _ le_rfl r hr⟩
    | cons v l =>
      obtain ⟨d, rfl, hc⟩ := check_arr hc
      obtain ⟨fuel, h⟩ := scanItems_renderIndent ho level ih hc r
      have hopens := (renderIndent_opens o n (level + 1) v).append (indentItems o n level l ++ r)
      have hskip := (skipWs_newline n (level + 1) _).trans hopens.skipWs
      refine ⟨fuel + 1, ?_⟩
      rw [renderIndent, List.cons_append, List.append_assoc, List.append_assoc, scanValue_arr, hskip,
        h, readBack]
      · rfl
      · intro t ht
        obtain ⟨x, u, hx, -, hne, -⟩ := hopens
        rw [hskip, hx] at ht
        exact hne (List.cons.inj ht).1
  | obj l ih =>
    intro d level r hc hr
    cases l with
    | nil => exact ⟨_, scanValue_render ho d _ hc _ le_rfl r hr⟩
    | cons m l =>
      obtain ⟨d, rfl, hc⟩ := check_obj hc
      obtain ⟨fuel, h⟩ := scanMembers_renderIndent ho level ih hc r
      have hskip : ∀ s, skipWs (newline n (level + 1) ++ (strText o.ensureAscii m.1 ++ s)) =
          strText o.ensureAscii m.1 ++ s := fun s =>
        (skipWs_newline n (level + 1) _).trans (skipWs_cons (by decide) _)
      refine ⟨fuel + 1, ?_⟩
      simp only [renderIndent, List.cons_append, List.append_assoc]
      rw [scanValue_obj, hskip, h, readBack]
      · rfl
      · intro t ht
        rw [hskip] at ht
        exact absurd (List.cons.inj ht).1 (by decide)

/-- **The decoder reads back an indented text as it does the text on one line.** -/
theorem loads_renderIndent (n level : ℕ) (ho : o.Ok) {v : Json F}
    (hc : check (JsonRuntime.maxDepth F) v = .ok ()) :
    loads (renderIndent o n level v) = .ok (readBack o.ensureAscii v) := by
  obtain ⟨x, t, hx, -, -, -, hbom⟩ := renderIndent_opens o n level v
  obtain ⟨fuel, h⟩ := indentReads ho n v _ level [] hc (by simp [Stops])
  rw [List.append_nil] at h
  have hvalue := (reads_of_scanValue h).scanValue (Nat.le_succ _)
  rw [loads, if_neg (by simpa [hx] using hbom), decodeDocument,
    (renderIndent_opens o n level v).skipWs, hvalue]
  rfl

/-! ## Where a text ends -/

lemma getLast?_renderItems (o : DumpOpts) (l : List (Json F)) :
    (renderItems o l).getLast? = some (.scalar ']') := by
  induction l with
  | nil => rfl
  | cons v l ih => simp [renderItems, List.getLast?_append, ih]

lemma getLast?_renderMembers (o : DumpOpts) (l : List (PyStr × Json F)) :
    (renderMembers o l).getLast? = some (.scalar '}') := by
  induction l with
  | nil => rfl
  | cons m l ih => simp [renderMembers, List.getLast?_append, ih]

lemma getLast?_indentItems (o : DumpOpts) (n level : ℕ) (l : List (Json F)) :
    (indentItems o n level l).getLast? = some (.scalar ']') := by
  induction l with
  | nil => simp [indentItems]
  | cons v l ih => simp [indentItems, List.getLast?_append, ih]

lemma getLast?_indentMembers (o : DumpOpts) (n level : ℕ) (l : List (PyStr × Json F)) :
    (indentMembers o n level l).getLast? = some (.scalar '}') := by
  induction l with
  | nil => simp [indentMembers]
  | cons m l ih => simp [indentMembers, List.getLast?_append, ih]

end Omkit.Lib
