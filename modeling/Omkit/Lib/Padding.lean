import Omkit.Lib.Regex

/-!
# Padding between the units of a text

A text is written as units with padding between them: the white space, the punctuation and the
numbers of a document stand between its strings.  If the words of a pattern can be stretched by
padding where two units meet, and drawn together there, then how the units are padded does not
matter to whether a word occurs.
-/

namespace Omkit.Lib

variable {α : Type}

/-! ## The words of a pattern -/

namespace Regex

/-- Every word of the pattern begins with a character of this kind. -/
def StartsWith (r : Regex α) (p : α → Prop) : Prop :=
  ∀ w, r.Matches w → ∃ x t, w = x :: t ∧ p x

/-- Every word of the pattern ends with a character of this kind. -/
def EndsWith (r : Regex α) (p : α → Prop) : Prop :=
  ∀ w, r.Matches w → ∃ t x, w = t ++ [x] ∧ p x

/-- The words of the pattern have only characters of this kind. -/
def Within (r : Regex α) (p : α → Prop) : Prop := ∀ w, r.Matches w → ∀ x ∈ w, p x

variable {r r' : Regex α} {p : α → Prop} {q : α → Bool} {eqv : α → α → Bool} {c : α}

lemma StartsWith.seq (h : r.StartsWith p) (r' : Regex α) : (seq r r').StartsWith p := by
  rintro w ⟨u, v, rfl, hu, -⟩
  obtain ⟨x, t, rfl, hx⟩ := h u hu
  exact ⟨x, t ++ v, rfl, hx⟩

lemma EndsWith.seq (r : Regex α) (h : r'.EndsWith p) : (seq r r').EndsWith p := by
  rintro w ⟨u, v, rfl, -, hv⟩
  obtain ⟨t, x, rfl, hx⟩ := h v hv
  exact ⟨u ++ t, x, by rw [List.append_assoc], hx⟩

lemma Within.seq (h : r.Within p) (h' : r'.Within p) : (seq r r').Within p := by
  rintro _ ⟨u, v, rfl, hu, hv⟩ x hx
  rcases List.mem_append.mp hx with hx | hx
  · exact h u hu x hx
  · exact h' v hv x hx

lemma within_char (h : ∀ x, q x = true → p x) : (char q).Within p := by
  rintro w ⟨y, rfl, hy⟩ x hx
  obtain rfl := List.mem_singleton.mp hx
  exact h x hy

lemma within_plus (greedy : Bool) (h : ∀ x, q x = true → p x) : (plus greedy q).Within p :=
  (within_char h).seq fun _ hw x hx => h x (hw x hx)

lemma within_lit {s : List α} (h : ∀ c ∈ s, ∀ x, eqv c x = true → p x) : (lit eqv s).Within p := by
  induction s with
  | nil =>
    rintro w rfl x hx
    cases hx
  | cons c s ih =>
    obtain ⟨hc, hs⟩ := List.forall_mem_cons.mp h
    exact (within_char hc).seq (ih hs)

lemma startsWith_lit (s : List α) (h : ∀ x, eqv c x = true → p x) :
    (lit eqv (c :: s)).StartsWith p := by
  refine StartsWith.seq ?_ _
  rintro w ⟨x, rfl, hx⟩
  exact ⟨x, [], rfl, h x hx⟩

lemma endsWith_lit (s : List α) (h : ∀ x, eqv c x = true → p x) :
    (lit eqv (s ++ [c])).EndsWith p := by
  induction s with
  | nil =>
    rintro w ⟨u, v, rfl, ⟨x, rfl, hx⟩, rfl⟩
    exact ⟨[], x, rfl, h x hx⟩
  | cons d s ih => exact EndsWith.seq _ ih

lemma endsWith_plus (greedy : Bool) (h : ∀ x, q x = true → p x) :
    (plus greedy q).EndsWith p := by
  intro w hw
  have hin := within_plus greedy h w hw
  obtain ⟨u, v, rfl, ⟨x, rfl, -⟩, -⟩ := hw
  obtain ⟨t, y, ht⟩ := (List.eq_nil_or_concat' ([x] ++ v)).resolve_left (by simp)
  exact ⟨t, y, ht, hin y (by simp [ht])⟩

end Regex

/-! ## Stretching -/

/-- The words of the pattern do not change with the padding between an edge and the next one, and
none ends in such padding. -/
structure Regex.Elastic (r : Regex α) (pad edge : α → Bool) : Prop where
  tail : ∀ {u x v}, edge x = true → r.Matches (u ++ x :: v) → ∃ y ∈ v, pad y = false
  bridge : ∀ {u x g g' y v}, edge x = true → (∀ z ∈ g, pad z = true) → (∀ z ∈ g', pad z = true) →
    edge y = true → r.Matches (u ++ x :: (g ++ y :: v)) → r.Matches (u ++ x :: (g' ++ y :: v))

/-- Nor does a word begin with padding. -/
structure Regex.Stretches (r : Regex α) (pad edge : α → Bool) : Prop
    extends Regex.Elastic r pad edge where
  head : r.StartsWith fun x => pad x = false

/-- The words of the pattern do not change with the padding after an edge. -/
def Regex.Absorbs (r : Regex α) (pad edge : α → Bool) : Prop :=
  ∀ {u x g g' v}, edge x = true → (∀ z ∈ g, pad z = true) → (∀ z ∈ g', pad z = true) →
    r.Matches (u ++ x :: (g ++ v)) → r.Matches (u ++ x :: (g' ++ v))

lemma eq_append_cons {u v a b : List α} {x : α} (h : u ++ x :: v = a ++ b) :
    (∃ c, a = u ++ x :: c ∧ v = c ++ b) ∨ ∃ c, u = a ++ c ∧ b = c ++ x :: v := by
  rcases List.append_eq_append_iff.mp h with ⟨c, rfl, hc⟩ | hleft
  · cases c with
    | nil => exact Or.inr ⟨[], by simp, hc.symm⟩
    | cons y c =>
      obtain ⟨rfl, rfl⟩ := List.cons.inj hc
      exact Or.inl ⟨c, rfl, rfl⟩
  · exact Or.inr hleft

section Rules

variable {r r' : Regex α} {pad edge : α → Bool} {q : α → Bool}

/-- Of a pattern without edges there is nothing to show. -/
lemma Regex.Within.elastic (h : r.Within fun x => edge x = false) : r.Elastic pad edge := by
  have hout : ∀ {u x v}, edge x = true → ¬ r.Matches (u ++ x :: v) := by
    intro u x v hx hm
    have hx' := h _ hm x (by simp)
    exact absurd hx (by simp [hx'])
  exact ⟨fun hx hm => absurd hm (hout hx), fun hx _ _ _ hm => absurd hm (hout hx)⟩

lemma Regex.Elastic.seq (hr : r.Elastic pad edge) (hr' : r'.Elastic pad edge) :
    (Regex.seq r r').Elastic pad edge := by
  constructor
  · rintro u x v hx ⟨w, w', hw, hm, hm'⟩
    rcases eq_append_cons hw with ⟨c, rfl, rfl⟩ | ⟨c, rfl, rfl⟩
    · obtain ⟨y, hy, hpad⟩ := hr.tail hx hm
      exact ⟨y, List.mem_append_left _ hy, hpad⟩
    · exact hr'.tail hx hm'
  · rintro u x g g' y v hx hg hg' hy ⟨w, w', hw, hm, hm'⟩
    rcases eq_append_cons hw with ⟨c, rfl, hc⟩ | ⟨c, rfl, rfl⟩
    · -- the first word does not end before the second edge
      obtain ⟨z, hz, hpad⟩ := hr.tail hx hm
      rcases eq_append_cons hc with ⟨d, rfl, rfl⟩ | ⟨d, rfl, -⟩
      · exact ⟨_, _, by simp, hr.bridge hx hg hg' hy hm, hm'⟩
      · exact absurd (hg z (List.mem_append_left _ hz)) (by simp [hpad])
    · exact ⟨_, _, by simp, hm, hr'.bridge hx hg hg' hy hm'⟩

lemma Regex.Stretches.seq (hr : r.Stretches pad edge) (hr' : r'.Elastic pad edge) :
    (Regex.seq r r').Stretches pad edge :=
  ⟨hr.toElastic.seq hr', hr.head.seq r'⟩

/-- A character that is followed by one that is neither padding nor an edge. -/
lemma Regex.Elastic.char_seq (h : r'.StartsWith fun x => pad x = false ∧ edge x = false)
    (hr' : r'.Elastic pad edge) : (Regex.seq (.char q) r').Elastic pad edge := by
  constructor
  · rintro u x v hx ⟨_, w', hw, ⟨z, rfl, -⟩, hm'⟩
    cases u with
    | nil =>
      obtain ⟨y, t, rfl, hpad, -⟩ := h w' hm'
      obtain ⟨rfl, rfl⟩ := List.cons.inj hw
      exact ⟨y, List.mem_cons_self, hpad⟩
    | cons a u =>
      obtain ⟨rfl, rfl⟩ := List.cons.inj hw
      exact hr'.tail hx hm'
  · rintro u x g g' y v hx hg hg' hy ⟨_, w', hw, ⟨z, rfl, hz⟩, hm'⟩
    cases u with
    | nil =>
      obtain ⟨b, t, rfl, hpad, hedge⟩ := h w' hm'
      obtain ⟨-, hrest⟩ := List.cons.inj hw
      cases g with
      | nil =>
        obtain ⟨rfl, -⟩ := List.cons.inj hrest
        exact absurd hy (by simp [hedge])
      | cons d g =>
        obtain ⟨rfl, -⟩ := List.cons.inj hrest
        exact absurd (hg d List.mem_cons_self) (by simp [hpad])
    | cons a u =>
      obtain ⟨rfl, rfl⟩ := List.cons.inj hw
      exact ⟨[a], _, rfl, ⟨a, rfl, hz⟩, hr'.bridge hx hg hg' hy hm'⟩

/-- What may hold any padding, before what does not begin with it. -/
lemma Regex.Absorbs.seq (hr : r.Absorbs pad edge) (hr' : r'.Stretches pad edge) :
    (Regex.seq r r').Elastic pad edge := by
  constructor
  · rintro u x v hx ⟨w, w', hw, hm, hm'⟩
    rcases eq_append_cons hw with ⟨c, rfl, rfl⟩ | ⟨c, rfl, rfl⟩
    · obtain ⟨y, t, rfl, hpad⟩ := hr'.head w' hm'
      exact ⟨y, by simp, hpad⟩
    · exact hr'.tail hx hm'
  · rintro u x g g' y v hx hg hg' hy ⟨w, w', hw, hm, hm'⟩
    rcases eq_append_cons hw with ⟨c, rfl, hc⟩ | ⟨c, rfl, rfl⟩
    · rcases List.append_eq_append_iff.mp hc with ⟨d, rfl, hd⟩ | ⟨d, rfl, rfl⟩
      · exact ⟨_, w', by simp [hd], hr hx hg hg' hm, hm'⟩
      · -- the second word begins at the second edge
        cases d with
        | nil =>
          rw [List.append_nil] at hg
          have hm₀ : r.Matches (u ++ x :: (c ++ [])) := by rwa [List.append_nil]
          exact ⟨_, y :: v, by simp, hr hx hg hg' hm₀, hm'⟩
        | cons z d =>
          obtain ⟨b, t, hb, hpad⟩ := hr'.head _ hm'
          obtain rfl := (List.cons.inj hb).1
          exact absurd (hg z (by simp)) (by simp [hpad])
    · exact ⟨_, _, by simp, hm, hr'.bridge hx hg hg' hy hm'⟩

lemma Regex.absorbs_rep (greedy : Bool) (h : ∀ z, pad z = true → q z = true) :
    (Regex.rep greedy q).Absorbs pad edge := by
  intro u x g g' v _ _ hg' hm z hz
  have hm' : ∀ z ∈ u ++ x :: (g ++ v), q z = true := hm
  simp only [List.mem_append, List.mem_cons] at hz hm'
  rcases hz with hz | rfl | hz | hz
  · exact hm' z (Or.inl hz)
  · exact hm' z (Or.inr (Or.inl rfl))
  · exact h z (hg' z hz)
  · exact hm' z (Or.inr (Or.inr (Or.inr hz)))

lemma Regex.absorbs_plus (greedy : Bool) (h : ∀ z, pad z = true → q z = true) :
    (Regex.plus greedy q).Absorbs pad edge := by
  rintro u x g g' v hx hg hg' ⟨_, w, hw, ⟨y, rfl, hy⟩, hm⟩
  have hall : (Regex.rep greedy q).Matches (u ++ x :: (g' ++ v)) := by
    refine absorbs_rep greedy h hx hg hg' ?_
    rw [hw]
    exact List.forall_mem_cons.mpr ⟨hy, hm⟩
  obtain ⟨z, t, ht⟩ := List.exists_cons_of_ne_nil (l := u ++ x :: (g' ++ v)) (by simp)
  rw [ht] at hall ⊢
  obtain ⟨hz, hrest⟩ := List.forall_mem_cons.mp hall
  exact ⟨[z], t, rfl, ⟨z, rfl, hz⟩, hrest⟩

end Rules

/-! ## One gap -/

section Gap

variable {r : Regex α} {pad edge : α → Bool} {a b g d o : List α}

/-- A word that occurs lies on one side of a cut, or it crosses it. -/
lemma Regex.occurs_append : r.Occurs (a ++ b) ↔ r.Occurs a ∨ r.Occurs b ∨
    ∃ u v, u ≠ [] ∧ v ≠ [] ∧ u <:+ a ∧ v <+: b ∧ r.Matches (u ++ v) := by
  constructor
  · rintro ⟨w, ⟨p, q, hw⟩, hm⟩
    rw [List.append_assoc] at hw
    rcases List.append_eq_append_iff.mp hw with ⟨c, rfl, hc⟩ | ⟨c, rfl, rfl⟩
    · rcases List.append_eq_append_iff.mp hc with ⟨e, rfl, -⟩ | ⟨e, rfl, rfl⟩
      · exact Or.inl ⟨w, ⟨p, e, by rw [List.append_assoc]⟩, hm⟩
      · rcases List.eq_nil_or_concat' c with rfl | ⟨c, x, rfl⟩
        · exact Or.inr (Or.inl ⟨e, ⟨[], q, rfl⟩, hm⟩)
        · cases e with
          | nil => exact Or.inl ⟨_, ⟨p, [], by simp⟩, hm⟩
          | cons y e =>
            exact Or.inr (Or.inr ⟨_, y :: e, by simp, by simp, ⟨p, rfl⟩, ⟨q, rfl⟩, hm⟩)
    · exact Or.inr (Or.inl ⟨w, ⟨c, q, by rw [List.append_assoc]⟩, hm⟩)
  · rintro (h | h | ⟨u, v, -, -, ⟨p, rfl⟩, ⟨q, rfl⟩, hm⟩)
    · exact h.mono (List.prefix_append a b).isInfix
    · exact h.mono (List.suffix_append a b).isInfix
    · exact ⟨u ++ v, ⟨p, q, by simp only [List.append_assoc]⟩, hm⟩

variable (hr : r.Stretches pad edge) (hg : ∀ z ∈ g, pad z = true)

include hr hg

/-- No word begins in the padding. -/
lemma Regex.Stretches.not_matches (hne : g ≠ []) (v : List α) : ¬ r.Matches (g ++ v) := by
  intro hm
  obtain ⟨x, t, ht, hx⟩ := hr.head _ hm
  obtain ⟨z, g, rfl⟩ := List.exists_cons_of_ne_nil hne
  obtain rfl := (List.cons.inj ht).1
  exact absurd (hg z List.mem_cons_self) (by simp [hx])

/-- Padding in front does not matter. -/
lemma Regex.Stretches.occurs_pad : r.Occurs (g ++ b) ↔ r.Occurs b := by
  rw [Regex.occurs_append]
  constructor
  · rintro (⟨w, hw, hm⟩ | h | ⟨u, v, hu, -, hsuf, -, hm⟩)
    · have hpad : ∀ z ∈ w, pad z = true := fun z hz => hg z (hw.subset hz)
      obtain ⟨x, t, rfl, -⟩ := hr.head w hm
      have hm' : r.Matches (x :: t ++ []) := by simpa using hm
      exact absurd hm' (hr.not_matches hpad (by simp) [])
    · exact h
    · exact absurd hm (hr.not_matches (fun z hz => hg z (hsuf.subset hz)) hu v)
  · exact fun h => Or.inr (Or.inl h)

/-- **Padding between two units does not matter.** -/
theorem Regex.Stretches.occurs_gap (ha : ∀ x ∈ a.getLast?, edge x = true)
    (hb : ∀ y ∈ b.head?, edge y = true) : r.Occurs (a ++ (g ++ b)) ↔ r.Occurs (a ++ b) := by
  rw [Regex.occurs_append, Regex.occurs_append (a := a) (b := b), hr.occurs_pad hg]
  -- a word that crosses the end of the first unit
  have hcross : (∃ u v, u ≠ [] ∧ v ≠ [] ∧ u <:+ a ∧ v <+: g ++ b ∧ r.Matches (u ++ v)) ↔
      ∃ u v, u ≠ [] ∧ v ≠ [] ∧ u <:+ a ∧ v <+: b ∧ r.Matches (u ++ v) := by
    have hlast : ∀ {u}, u ≠ [] → u <:+ a → ∃ u' x, u = u' ++ [x] ∧ edge x = true := by
      rintro u hu ⟨p, rfl⟩
      obtain ⟨u', x, rfl⟩ := (List.eq_nil_or_concat' u).resolve_left hu
      exact ⟨u', x, rfl, ha x (by simp)⟩
    have hfirst : ∀ {v}, v ≠ [] → v <+: b → ∃ y v', v = y :: v' ∧ edge y = true := by
      rintro v hv ⟨q, rfl⟩
      obtain ⟨y, v', rfl⟩ := List.exists_cons_of_ne_nil hv
      exact ⟨y, v', rfl, hb y rfl⟩
    constructor
    · rintro ⟨u, v, hu, hv, hsuf, ⟨q, hq⟩, hm⟩
      obtain ⟨u', x, rfl, hx⟩ := hlast hu hsuf
      have hend : ¬ v <+: g := by
        intro hpre
        rw [List.append_assoc, List.singleton_append] at hm
        obtain ⟨y, hy, hpad⟩ := hr.tail hx hm
        exact absurd (hg y (hpre.subset hy)) (by simp [hpad])
      rcases List.append_eq_append_iff.mp hq with ⟨e, rfl, -⟩ | ⟨e, rfl, rfl⟩
      · exact absurd (List.prefix_append v e) hend
      · cases e with
        | nil => exact absurd (by simp) hend
        | cons y e =>
          obtain ⟨z, e', he, hy⟩ := hfirst (v := y :: e) (by simp) ⟨q, rfl⟩
          obtain ⟨rfl, rfl⟩ := List.cons.inj he
          rw [List.append_assoc, List.singleton_append] at hm
          have hm' : r.Matches (u' ++ x :: ([] ++ y :: e)) := hr.bridge hx hg (by simp) hy hm
          exact ⟨_, y :: e, hu, by simp, hsuf, ⟨q, rfl⟩, by simpa using hm'⟩
    · rintro ⟨u, v, hu, hv, hsuf, hpre, hm⟩
      obtain ⟨u', x, rfl, hx⟩ := hlast hu hsuf
      obtain ⟨y, v', rfl, hy⟩ := hfirst hv hpre
      rw [List.append_assoc, List.singleton_append] at hm
      have hm' := hr.bridge hx (g := []) (by simp) hg hy hm
      exact ⟨_, g ++ y :: v', hu, by simp, hsuf, (List.prefix_append_right_inj g).mpr hpre,
        by simpa using hm'⟩
  rw [hcross]

end Gap

/-! ## Padded texts -/

/-- A text that begins and ends at an edge. -/
structure Edged (edge : α → Bool) (u : List α) : Prop where
  ne_nil : u ≠ []
  head : ∀ x ∈ u.head?, edge x = true
  last : ∀ x ∈ u.getLast?, edge x = true

/-- The text `d` has the units of the text `o`, and padding around them. -/
inductive Padded (pad edge : α → Bool) : List α → List α → Prop
  | nil : Padded pad edge [] []
  | pad {x d o} (hx : pad x = true) (h : Padded pad edge d o) : Padded pad edge (x :: d) o
  | unit {u d o} (hu : Edged edge u) (h : Padded pad edge d o) : Padded pad edge (u ++ d) (u ++ o)

namespace Padded

variable {r : Regex α} {pad edge : α → Bool} {a g d o d' o' : List α}

lemma of_pad (hg : ∀ z ∈ g, pad z = true) : Padded pad edge g [] := by
  induction g with
  | nil => exact .nil
  | cons z g ih =>
    obtain ⟨hz, hg⟩ := List.forall_mem_cons.mp hg
    exact .pad hz (ih hg)

lemma of_edged (ho : Edged edge o) : Padded pad edge o o := by
  have h : Padded pad edge (o ++ []) (o ++ []) := .unit ho .nil
  simpa using h

protected lemma append (h : Padded pad edge d o) (h' : Padded pad edge d' o') :
    Padded pad edge (d ++ d') (o ++ o') := by
  induction h with
  | nil => exact h'
  | pad hx _ ih => exact .pad hx ih
  | unit hu _ ih =>
    rw [List.append_assoc, List.append_assoc]
    exact .unit hu ih

/-- Padding in front. -/
lemma pad_append (hg : ∀ z ∈ g, pad z = true) (h : Padded pad edge d o) :
    Padded pad edge (g ++ d) o := by
  simpa using (of_pad hg).append h

/-- **How a text is padded does not matter to whether a word of the pattern occurs.** -/
theorem occurs_iff (hr : r.Stretches pad edge) (h : Padded pad edge d o) :
    r.Occurs d ↔ r.Occurs o := by
  -- the units that were read, and the padding since the last of them
  have key : ∀ a g, (∀ x ∈ a.getLast?, edge x = true) → (∀ z ∈ g, pad z = true) →
      (r.Occurs (a ++ (g ++ d)) ↔ r.Occurs (a ++ o)) := by
    induction h with
    | nil => exact fun a g ha hg => hr.occurs_gap hg ha (by simp)
    | @pad x d o hx _ ih =>
      intro a g ha hg
      have hg' : ∀ z ∈ g ++ [x], pad z = true := by
        intro z hz
        rcases List.mem_append.mp hz with hz | hz
        · exact hg z hz
        · rwa [List.mem_singleton.mp hz]
      have hassoc : g ++ x :: d = (g ++ [x]) ++ d := by simp
      rw [hassoc]
      exact ih a _ ha hg'
    | @unit u d o hu _ ih =>
      intro a g ha hg
      have hhead : ∀ y ∈ (u ++ d).head?, edge y = true := by
        obtain ⟨y, u, rfl⟩ := List.exists_cons_of_ne_nil hu.ne_nil
        exact hu.head
      have hlast : ∀ x ∈ (a ++ u).getLast?, edge x = true := by
        rw [List.getLast?_append_of_ne_nil _ hu.ne_nil]
        exact hu.last
      rw [hr.occurs_gap hg ha hhead]
      simpa using ih (a ++ u) [] hlast (by simp)
  exact key [] [] (by simp) (by simp)

end Padded

end Omkit.Lib
