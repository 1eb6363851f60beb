import Omkit.Lib.Cuts
import Omkit.Lib.Padding

/-!
# Word boundaries

A pattern that begins with a word boundary looks at the character before it, which may belong to an
earlier match: with each character goes whether a word character stands before it in the text.  When
the words of the pattern end in a character that is not part of a word, removing them makes no
boundary that was not there.
-/

namespace Omkit.Lib

variable {α β : Type} {p : α → Bool} {s t a b w : List α} {x : α}

/-! ## The character before -/

/-- The characters of a text, each with whether a character of `p` stands before it; `before` is
said of the first. -/
def behindFrom (p : α → Bool) (before : Bool) : List α → List (α × Bool)
  | [] => []
  | x :: s => (x, before) :: behindFrom p (p x) s

/-- The characters of a text, each with whether a character of `p` stands before it. -/
def behind (p : α → Bool) (s : List α) : List (α × Bool) := behindFrom p false s

/-- `\b` before a character of `q`, and then a word of `r`. -/
def Regex.bounded (p q : α → Bool) (r : Regex α) : Regex (α × Bool) :=
  .seq (.char fun x => q x.1 && (p x.1 != x.2)) (r.comap Prod.fst)

/-- `re.sub` with the empty text, for a pattern that begins with a boundary. -/
def Regex.removeBounded (p q : α → Bool) (r : Regex α) (s : List α) : List α :=
  ((r.bounded p q).remove (behind p s)).map Prod.fst

/-- Does the text end with a character of `p`? -/
def endsIn (p : α → Bool) (s : List α) : Bool := s.getLast?.any p

@[simp] lemma endsIn_concat (s : List α) (x : α) : endsIn p (s ++ [x]) = p x := by
  rw [endsIn, List.getLast?_concat, Option.any_some]

lemma behindFrom_map_fst (p : α → Bool) (before : Bool) (s : List α) :
    (behindFrom p before s).map Prod.fst = s := by
  induction s generalizing before with
  | nil => rfl
  | cons x s ih => rw [behindFrom, List.map_cons, ih]

lemma behind_map_fst (p : α → Bool) (s : List α) : (behind p s).map Prod.fst = s :=
  behindFrom_map_fst p false s

lemma behindFrom_map (f : β → α) (before : Bool) (s : List β) :
    behindFrom p before (s.map f) = (behindFrom (p ∘ f) before s).map (Prod.map f id) := by
  induction s generalizing before with
  | nil => rfl
  | cons x s ih => exact congrArg _ (ih _)

lemma behind_map (f : β → α) (s : List β) :
    behind p (s.map f) = (behind (p ∘ f) s).map (Prod.map f id) :=
  behindFrom_map f false s

lemma behindFrom_append (before : Bool) (a s : List α) : behindFrom p before (a ++ s) =
    behindFrom p before a ++ behindFrom p ((a.getLast?.map p).getD before) s := by
  induction a generalizing before with
  | nil => rfl
  | cons x a ih =>
    rw [List.cons_append, behindFrom, ih, behindFrom, List.cons_append, List.getLast?_cons]
    cases a.getLast? <;> rfl

/-- What a character sees of the text before it. -/
lemma behind_append (a s : List α) :
    behind p (a ++ s) = behind p a ++ behindFrom p (endsIn p a) s := by
  rw [behind, behindFrom_append, endsIn]
  cases a.getLast? <;> rfl

/-! ## A pattern with a boundary -/

variable {q : α → Bool} {r : Regex α}

namespace Regex

lemma comap_comap {γ : Type} (r : Regex α) (f : β → α) (g : γ → β) :
    (r.comap f).comap g = r.comap (f ∘ g) := by
  induction r with
  | empty => rfl
  | char q => rfl
  | seq r r' ih ih' => rw [comap, comap, ih, ih', comap]
  | opt r ih => rw [comap, comap, ih, comap]
  | rep greedy q => rfl
  | group r ih => rw [comap, comap, ih, comap]

lemma occurs_comap {f : β → α} {s : List β} : (r.comap f).Occurs s ↔ r.Occurs (s.map f) := by
  constructor
  · rintro ⟨w, hw, hm⟩
    exact ⟨w.map f, hw.map f, matches_comap.mp hm⟩
  · rintro ⟨v, hv, hm⟩
    obtain ⟨w, hw, rfl⟩ := List.infix_map_iff.mp hv
    exact ⟨w, hw, matches_comap.mpr hm⟩

lemma EndsWith.comap {P : α → Prop} (h : r.EndsWith P) (f : β → α) :
    (r.comap f).EndsWith fun x => P (f x) := by
  intro w hw
  obtain ⟨t, x, ht, hx⟩ := h _ (matches_comap.mp hw)
  obtain ⟨t, v, rfl, -, hv⟩ := List.map_eq_append_iff.mp ht
  obtain ⟨y, rfl, rfl⟩ := List.map_eq_singleton_iff.mp hv
  exact ⟨t, y, rfl, hx⟩

lemma not_matches_bounded_nil : ¬ (r.bounded p q).Matches [] := by
  rintro ⟨u, v, hnil, ⟨x, rfl, -⟩, -⟩
  cases hnil

/-- A word at a boundary, with what stands before each of its characters. -/
lemma bounded_word (hq : q x = true) (hm : r.Matches w) (hb : (p x != endsIn p a) = true)
    (b : List α) : (x, endsIn p a) :: behindFrom p (p x) w <:+: behind p (a ++ x :: (w ++ b)) ∧
      (r.bounded p q).Matches ((x, endsIn p a) :: behindFrom p (p x) w) := by
  constructor
  · refine ⟨behind p a, behindFrom p ((w.getLast?.map p).getD (p x)) b, ?_⟩
    rw [behind_append, behindFrom, behindFrom_append, List.append_assoc, List.cons_append]
  · refine ⟨[(x, endsIn p a)], behindFrom p (p x) w, rfl, ⟨_, rfl, ?_⟩, ?_⟩
    · exact (Bool.and_eq_true _ _).mpr ⟨hq, hb⟩
    · rw [matches_comap, behindFrom_map_fst]
      exact hm

/-- **The pattern occurs where a word of it stands at a boundary.** -/
theorem occurs_bounded : (r.bounded p q).Occurs (behind p s) ↔
    ∃ a x w b, s = a ++ x :: (w ++ b) ∧ q x = true ∧ r.Matches w ∧ (p x != endsIn p a) = true := by
  constructor
  · rintro ⟨_, ⟨u, v, heq⟩, _, w, rfl, ⟨⟨x, f⟩, rfl, hx⟩, hm⟩
    obtain ⟨hq, hb⟩ := (Bool.and_eq_true _ _).mp hx
    have hs := congrArg (List.map Prod.fst) heq
    simp only [behind_map_fst, List.map_append, List.map_cons, List.map_nil] at hs
    refine ⟨u.map Prod.fst, x, w.map Prod.fst, v.map Prod.fst, by simp [← hs], hq,
      matches_comap.mp hm, ?_⟩
    -- what is said of the first character of the word
    have hsplit : behind p s = behind p (u.map Prod.fst) ++
        behindFrom p (endsIn p (u.map Prod.fst)) (x :: (w.map Prod.fst ++ v.map Prod.fst)) := by
      rw [← behind_append]
      exact congrArg _ (by simp [← hs])
    have hu : u.length = (behind p (u.map Prod.fst)).length := by
      have hlen := congrArg List.length (behind_map_fst p (u.map Prod.fst))
      rw [List.length_map, List.length_map] at hlen
      exact hlen.symm
    rw [← heq, List.append_assoc, List.append_assoc] at hsplit
    obtain ⟨-, htail⟩ := List.append_inj hsplit hu
    obtain rfl : f = endsIn p (u.map Prod.fst) := (Prod.mk.inj (List.cons.inj htail).1).2
    exact hb
  · rintro ⟨a, x, w, b, rfl, hq, hm, hb⟩
    obtain ⟨hin, hword⟩ := bounded_word hq hm hb b
    exact ⟨_, hin, hword⟩

lemma removeBounded_sublist (p q : α → Bool) (r : Regex α) (s : List α) :
    (r.removeBounded p q s).Sublist s := by
  have hsub := (remove_sublist (r.bounded p q) (behind p s)).map Prod.fst
  rw [behind_map_fst] at hsub
  exact hsub

lemma removeBounded_of_not_occurs (h : ¬ (r.bounded p q).Occurs (behind p s)) :
    r.removeBounded p q s = s := by
  rw [removeBounded, remove_of_not_occurs h, behind_map_fst]

lemma bounded_comap (r : Regex α) (f : β → α) :
    (r.bounded p q).comap (Prod.map f id) = (r.comap f).bounded (p ∘ f) (q ∘ f) := by
  rw [bounded, bounded, comap, comap, comap_comap, comap_comap]
  rfl

/-- What is left of the images is the image of what is left. -/
theorem removeBounded_comap (r : Regex α) (f : β → α) (s : List β) :
    r.removeBounded p q (s.map f) = ((r.comap f).removeBounded (p ∘ f) (q ∘ f) s).map f := by
  rw [removeBounded, removeBounded, behind_map, remove_comap, bounded_comap, List.map_map,
    List.map_map]
  rfl

/-! ## What is left -/

/-- Before a character that is left stood one that is left as well, or the end of a match. -/
lemma last_of_removed {P : α → Prop} (hne : ¬ r.Matches []) (hend : r.EndsWith P) (hs : s.Nodup)
    {z : α} (hsplit : s = a ++ z :: x :: b) (hx : x ∈ r.remove s) (hz : z ∉ r.remove s) : P z := by
  have key : ∀ n (s a : List α), s.length ≤ n → s.Nodup → s = a ++ z :: x :: b →
      x ∈ r.removeAux n s → z ∉ r.removeAux n s → P z := by
    intro n
    induction n with
    | zero =>
      intro s a hlen _ hsplit
      rw [hsplit] at hlen
      simp at hlen
    | succ n ih =>
      intro s a hlen hs hsplit hx hz
      cases s with
      | nil => simp at hsplit
      | cons y s =>
        obtain ⟨hy, hs'⟩ := List.nodup_cons.mp hs
        have hlen : s.length ≤ n := Nat.le_of_succ_le_succ hlen
        rw [removeAux] at hx hz
        cases hat : r.matchAt (y :: s) with
        | none =>
          rw [hat] at hx hz
          obtain ⟨hzy, hz⟩ := not_or.mp fun hor => hz (List.mem_cons.mpr hor)
          cases a with
          | nil => exact absurd (List.cons.inj hsplit).1.symm hzy
          | cons y' a =>
            obtain ⟨-, htail⟩ := List.cons.inj hsplit
            have hxy : x ≠ y := by
              rintro rfl
              exact hy (by rw [htail]; simp)
            exact ih s a hlen hs' htail ((List.mem_cons.mp hx).resolve_left hxy) hz
        | some t =>
          obtain ⟨u, hu, hmu⟩ := (r.exists_run_iff ⟨y :: s, none⟩ t.rest).mp
            ⟨t, List.mem_of_mem_head? hat, rfl⟩
          have hcut : y :: s = u ++ t.rest := hu
          have hsuffix : t.rest <:+ s := by
            cases u with
            | nil => exact absurd hmu hne
            | cons y' u => exact ⟨u, (List.cons.inj hcut).2.symm⟩
          rw [hat] at hx hz
          dsimp only at hx hz
          rw [if_pos hsuffix.length_le] at hx hz
          have hrest : ∀ a', t.rest = a' ++ z :: x :: b → P z := fun a' heq =>
            ih t.rest a' (hsuffix.length_le.trans hlen) (hs'.sublist hsuffix.sublist) heq hx hz
          rw [hcut] at hsplit hs
          rcases List.append_eq_append_iff.mp hsplit with ⟨c, rfl, hc⟩ | ⟨c, rfl, hc⟩
          · exact hrest c hc
          · rcases c with _ | ⟨z', _ | ⟨x', c⟩⟩
            · exact hrest [] hc.symm
            · -- the match ends with the character before
              obtain ⟨v, y', hv, hP⟩ := hend _ hmu
              obtain ⟨-, hlast⟩ := List.append_inj' hv rfl
              obtain rfl := (List.cons.inj hc).1
              obtain rfl := (List.cons.inj hlast).1
              exact hP
            · -- the character itself would belong to the match
              obtain ⟨-, hc⟩ := List.cons.inj hc
              obtain rfl := (List.cons.inj hc).1
              exact absurd rfl ((List.nodup_append.mp hs).2.2 x (by simp) x
                ((r.removeAux_sublist n t.rest).subset hx))
  exact key s.length s a le_rfl hs hsplit hx hz

end Regex

/-- What stands between two characters that follow each other was not there before. -/
lemma follows_of_sublist (ht : t.Nodup) (hsub : s.Sublist t) {z : α}
    (hsplit : t = a ++ z :: x :: b) (hz : z ∈ s) (hx : x ∈ s) :
    ∃ u v, s = u ++ z :: x :: v := by
  subst hsplit
  obtain ⟨hza, hx', hzx⟩ : z ∉ a ∧ x ∉ a ∧ z ∉ x :: b := by
    obtain ⟨-, hnd, hdisj⟩ := List.nodup_append.mp ht
    refine ⟨fun h => hdisj z h z (by simp) rfl, fun h => hdisj x h x (by simp) rfl,
      (List.nodup_cons.mp hnd).1⟩
  obtain ⟨u, s', rfl, hu, hs'⟩ := List.sublist_append_iff.mp hsub
  have hz' : z ∈ s' := (List.mem_append.mp hz).resolve_left fun h => hza (hu.subset h)
  have hxs : x ∈ s' := (List.mem_append.mp hx).resolve_left fun h => hx' (hu.subset h)
  cases hs' with
  | cons _ hs' => exact absurd (hs'.subset hz') hzx
  | cons_cons _ hs' =>
    have hxz : x ≠ z := fun h => hzx (h ▸ List.mem_cons_self)
    have hxs := (List.mem_cons.mp hxs).resolve_left hxz
    cases hs' with
    | cons _ hs' =>
      have hnd := (List.nodup_append.mp ht).2.1
      exact absurd (hs'.subset hxs) (List.nodup_cons.mp (List.nodup_cons.mp hnd).2).1
    | cons_cons _ hs' => exact ⟨u, _, rfl⟩

lemma nodup_behind (hs : s.Nodup) : (behind p s).Nodup :=
  List.Nodup.of_map Prod.fst ((behind_map_fst p s).symm ▸ hs)

/-- A character is left exactly if it is left with what stood before it. -/
lemma mem_remove_behind {R : Regex (α × Bool)} (hs : s.Nodup) {y : α × Bool}
    (hy : y ∈ behind p s) :
    y ∈ R.remove (behind p s) ↔ y.1 ∈ (R.remove (behind p s)).map Prod.fst := by
  constructor
  · exact fun h => List.mem_map_of_mem h
  · intro h
    obtain ⟨y', hy', heq⟩ := List.mem_map.mp h
    have hnd : ((behind p s).map Prod.fst).Nodup := (behind_map_fst p s).symm ▸ hs
    have hsame := List.inj_on_of_nodup_map hnd ((R.remove_sublist _).subset hy') hy heq
    exact hsame ▸ hy'

/-- Of a word that stands at a boundary a character is taken away. -/
lemma Regex.removeBounded_hits (hs : s.Nodup) {v : List (α × Bool)} (hv : v <:+: behind p s)
    (hm : (r.bounded p q).Matches v) : ∃ y ∈ v.map Prod.fst, y ∉ r.removeBounded p q s := by
  obtain ⟨y, hy, hout⟩ := remove_hits not_matches_bounded_nil (nodup_behind hs) hv hm
  refine ⟨y.1, List.mem_map_of_mem hy, fun h => ?_⟩
  exact hout ((mem_remove_behind hs (hv.subset hy)).mpr h)

/-- A text from which nothing is taken away has no word of the pattern at a boundary. -/
lemma Regex.not_occurs_of_removeBounded (hs : s.Nodup) (h : r.removeBounded p q s = s) :
    ¬ (r.bounded p q).Occurs (behind p s) := by
  rintro ⟨v, hv, hm⟩
  obtain ⟨y, hy, hout⟩ := removeBounded_hits hs hv hm
  have hin : y ∈ (behind p s).map Prod.fst := (hv.map Prod.fst).subset hy
  rw [behind_map_fst] at hin
  rw [h] at hout
  exact hout hin

/-- **A word of the pattern that stands at a boundary in what is left was pieced together.** -/
theorem Regex.not_infix_of_bounded (hend : r.EndsWith fun y => p y = false)
    (hq : ∀ y, q y = true → p y = true) (hs : s.Nodup)
    (hkept : r.removeBounded p q s = a ++ x :: (w ++ b)) (hx : q x = true) (hm : r.Matches w)
    (hbound : endsIn p a = false) : ¬ (x :: w) <:+: s := by
  rintro ⟨c, d, hin⟩
  rw [List.append_assoc, List.cons_append] at hin
  have hsub := r.removeBounded_sublist p q s
  have hword : ∀ y ∈ x :: w, y ∈ r.removeBounded p q s := by
    intro y hy
    rw [hkept]
    rcases List.mem_cons.mp hy with rfl | hy
    · simp
    · simp [hy]
  cases hc : endsIn p c with
  | false =>
    -- the word stood at a boundary, so a character of it was taken away
    have hb : (p x != endsIn p c) = true := by rw [hq x hx, hc]; rfl
    obtain ⟨hpart, hmatch⟩ := bounded_word (p := p) hx hm hb d
    rw [hin] at hpart
    obtain ⟨y, hy, hout⟩ := removeBounded_hits hs hpart hmatch
    rw [List.map_cons, behindFrom_map_fst] at hy
    exact hout (hword y hy)
  | true =>
    obtain ⟨c, z, rfl⟩ := (List.eq_nil_or_concat' c).resolve_left (by rintro rfl; cases hc)
    rw [endsIn_concat] at hc
    rw [List.append_assoc, List.singleton_append] at hin
    by_cases hz : z ∈ r.removeBounded p q s
    · -- the character before it is left, and still stands before it
      obtain ⟨u, v, huv⟩ :=
        follows_of_sublist hs hsub hin.symm hz (hword x List.mem_cons_self)
      have hsplit : (u ++ [z]) ++ x :: v = a ++ x :: (w ++ b) := by
        rw [← hkept, huv, List.append_assoc, List.singleton_append]
      have hndk : ((u ++ [z]) ++ x :: v).Nodup := by
        rw [hsplit, ← hkept]
        exact hs.sublist hsub
      obtain ⟨-, hxv, hdisj⟩ := List.nodup_append.mp hndk
      have hxu : x ∉ u ++ [z] := fun h => hdisj x h x List.mem_cons_self rfl
      have ha : u ++ [z] = a :=
        ((List.append_cons_inj_of_notMem hxu (List.nodup_cons.mp hxv).1).mp hsplit).1
      rw [← ha, endsIn_concat, hc] at hbound
      cases hbound
    · -- the character before it ended a match
      have hbehind : behind p s = behind p c ++ (z, endsIn p c) :: (x, p z) ::
          behindFrom p (p x) (w ++ d) := by
        rw [← hin, behind_append, behindFrom, behindFrom]
      have hmem : ∀ y ∈ [(z, endsIn p c), (x, p z)], y ∈ behind p s := by
        intro y hy
        rw [hbehind]
        exact List.mem_append_right _ (List.mem_of_mem_take (i := 2) hy)
      have hzfalse : p z = false :=
        last_of_removed (P := fun y : α × Bool => p y.1 = false) not_matches_bounded_nil
          (EndsWith.seq _ (hend.comap Prod.fst)) (nodup_behind hs) hbehind
          ((mem_remove_behind hs (hmem _ (by simp))).mpr (hword x List.mem_cons_self))
          fun h => hz ((mem_remove_behind hs (hmem _ (by simp))).mp h)
      rw [hc] at hzfalse
      cases hzfalse

end Omkit.Lib
