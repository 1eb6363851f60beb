import Omkit.Valkeysub

/-!
# What a subscriber yields, and what it leaves open

Over any run the yields of an iterator are a part of what was published, in order and each message
at most once; while no connection loses anything, it misses one gap for each reconnect at most.  A
pubsub that is not in use any more is closed, save in the cases that `abandons` names.
-/

namespace Omkit.Valkeysub

open Lib

variable {d : Bool} {s t : State} {e : Event}

/-! ## The pubsubs -/

/-- The numbers of the pubsubs, and which of them can be connected. -/
structure Sound (s : State) : Prop where
  held : ∀ c, s.held c = true → 0 < c ∧ c ≤ s.made
  subscribed : ∀ c, (s.channel.conns c).subscribed = true → s.held c = true
  fresh : ∀ c, s.made < c → s.channel.conns c = .idle
  uses : s.point.uses = true → s.held s.made = true

/-- A connection changes that is held, or is not subscribed. -/
lemma Sound.setConn (h : Sound s) {c : ℕ} {x : Conn Bytes}
    (hx : s.made < c → x = .idle) (hsub : x.subscribed = true → s.held c = true) :
    Sound { s with channel := s.channel.setConn c x } where
  held := h.held
  subscribed c' hc' := by
    by_cases heq : c' = c
    · subst heq
      rw [Channel.setConn_self] at hc'
      exact hsub hc'
    · rw [Channel.setConn_of_ne heq] at hc'
      exact h.subscribed c' hc'
  fresh c' hc' := by
    by_cases heq : c' = c
    · subst heq
      rw [Channel.setConn_self]
      exact hx hc'
    · rw [Channel.setConn_of_ne heq]
      exact h.fresh c' hc'
  uses := h.uses

/-- The point changes, and the yields. -/
lemma Sound.goTo (h : Sound s) {p : Point} (yields : List Bytes)
    (hp : p.uses = true → s.held s.made = true) :
    Sound { s with point := p, yields := yields } :=
  ⟨h.held, h.subscribed, h.fresh, hp⟩

lemma Sound.move (h : Sound s) (hm : Move s e t) : Sound t := by
  have hcur : ¬ s.made < s.made := lt_irrefl _
  cases hm with
  | publish b =>
    refine ⟨h.held, fun c hc => h.subscribed c ?_, fun c hc => ?_, h.uses⟩
    · rwa [Channel.publish_subscribed] at hc
    · have hidle := h.fresh c hc
      show (s.channel.publish b).conns c = .idle
      rw [Channel.publish_of_not_subscribed (by rw [hidle]; rfl), hidle]
  | @subscribe c hheld =>
    exact h.setConn (fun hc => absurd (h.held c hheld).2 (by omega)) fun _ => hheld
  | @lose c inbox hsub =>
    refine h.setConn (fun hc => ?_) (by simp)
    rw [h.fresh c hc] at hsub
    rw [List.eq_nil_of_sublist_nil hsub]
    rfl
  | make _ =>
    have hupdate : ∀ c, Function.update s.held (s.made + 1) true c = true ↔
        c = s.made + 1 ∨ s.held c = true := fun c => by simp [Function.update_apply]
    refine ⟨fun c hc => ?_, fun c hc => ?_, fun c hc => ?_, fun _ => ?_⟩
    · show 0 < c ∧ c ≤ s.made + 1
      rcases (hupdate c).mp hc with rfl | hc
      · omega
      · have hle := h.held c hc
        omega
    · exact (hupdate c).mpr (.inr (h.subscribed c hc))
    · have hlt : s.made + 1 < c := hc
      exact h.fresh c (by omega)
    · exact (hupdate _).mpr (.inl rfl)
  | turn _ huses => exact h.goTo s.yields fun hp => h.uses (huses.mp hp).1
  | unsubscribe hp =>
    have huses : s.held s.made = true := h.uses (by rw [hp]; rfl)
    exact (h.setConn (fun hc => absurd hc hcur) (by simp)).goTo _ fun _ => huses
  | close _ hp =>
    have hset : Sound { s with channel := s.channel.setConn s.made .idle } :=
      h.setConn (fun _ => rfl) (by simp [Conn.idle])
    have hupdate : ∀ c, Function.update s.held s.made false c = true ↔
        c ≠ s.made ∧ s.held c = true := fun c => by simp [Function.update_apply]
    refine ⟨fun c hc => h.held c ((hupdate c).mp hc).2, fun c hc => ?_, hset.fresh, ?_⟩
    · refine (hupdate c).mpr ⟨?_, hset.subscribed c hc⟩
      rintro rfl
      have hidle : ((s.channel.setConn s.made .idle).conns s.made).subscribed = true := hc
      rw [Channel.setConn_self] at hidle
      cases hidle
    · intro huses
      exact absurd huses (by simp [hp])
  | yield hp hinbox =>
    have huses : s.held s.made = true := h.uses (by rw [hp]; rfl)
    exact (h.setConn (fun hc => absurd hc hcur) fun _ => huses).goTo _ fun _ => huses
  | fail hp hinbox =>
    have huses : s.held s.made = true := h.uses (by rw [hp]; rfl)
    exact (h.setConn (fun hc => absurd hc hcur) fun _ => huses).goTo s.yields
      fun _ => huses

lemma sound_of_reachable (h : (machine d).Reachable s) : Sound s := by
  refine h.invariant ?_ fun s e t hs hstep => hs.move (move_of_step hstep)
  rintro s ⟨hch, -, hheld, hpoint, -⟩
  refine ⟨fun c hc => ?_, fun c hc => ?_, fun c _ => by rw [hch], fun huses => ?_⟩
  · rw [hheld] at hc
    cases hc
  · rw [hch] at hc
    cases hc
  · rw [hpoint] at huses
    cases huses

/-! ## Any run -/

/-- What the generator may still read from the pubsub in use. -/
def State.waiting (s : State) : List Bytes := if s.point.reads then s.conn.inbox else []

lemma waiting_of_reads (h : s.point.reads = true) : s.waiting = s.conn.inbox := if_pos h

/-- The connection of the pubsub in use after a change of one connection. -/
lemma conn_setConn (c : ℕ) (x : Conn Bytes) :
    { s with channel := s.channel.setConn c x }.conn = if s.made = c then x else s.conn := by
  show Function.update s.channel.conns c x s.made = _
  rw [Function.update_apply]
  rfl

/-- A change of one connection that takes nothing but messages away from it. -/
lemma waiting_setConn {c : ℕ} {x : Conn Bytes}
    (h : x.inbox.Sublist (s.channel.conns c).inbox) :
    ({ s with channel := s.channel.setConn c x } : State).waiting.Sublist s.waiting := by
  cases hreads : s.point.reads with
  | false => simp [State.waiting, hreads]
  | true =>
    simp only [State.waiting, hreads, if_true, conn_setConn]
    split_ifs with heq
    · subst heq
      exact h
    · exact List.Sublist.refl _

lemma behind_publish (h : Behind s.channel.log s.yields s.waiting) (b : Bytes) :
    Behind (s.channel.log ++ [b]) s.yields
      ({ s with channel := s.channel.publish b } : State).waiting := by
  cases hreads : s.point.reads with
  | false =>
    simp only [State.waiting, hreads, Bool.false_eq_true, if_false] at h ⊢
    exact h.skip b
  | true =>
    simp only [State.waiting, hreads, if_true, State.conn] at h ⊢
    cases hsub : (s.channel.conns s.made).subscribed with
    | true =>
      rw [Channel.publish_of_subscribed hsub]
      exact h.append b
    | false =>
      rw [Channel.publish_of_not_subscribed hsub]
      exact h.skip b

lemma behind_move (hs : Sound s) (h : Behind s.channel.log s.yields s.waiting)
    (hm : Move s e t) : Behind t.channel.log t.yields t.waiting := by
  have hidle : Behind s.channel.log s.yields [] := .of_sublist h.sublist
  cases hm with
  | publish b => exact behind_publish h b
  | subscribe _ => exact h.mono (waiting_setConn (List.Sublist.refl _))
  | lose hsub => exact h.mono (waiting_setConn hsub)
  | make _ =>
    -- the connection of a new pubsub is empty
    have hconn := hs.fresh (s.made + 1) (Nat.lt_succ_self _)
    have hnil : (s.channel.conns (s.made + 1)).inbox = [] := by
      rw [hconn]
      rfl
    show Behind _ _ (s.channel.conns (s.made + 1)).inbox
    rw [hnil]
    exact hidle
  | @turn a p hreads _ =>
    show Behind s.channel.log s.yields (if p.reads then s.conn.inbox else [])
    cases hp : p.reads with
    | false => exact hidle
    | true =>
      rw [waiting_of_reads (hreads hp)] at h
      exact h
  | unsubscribe _ => exact hidle
  | @close p _ hp =>
    have hreads : p.reads = false := Bool.eq_false_iff.mpr fun hr =>
      Bool.eq_false_iff.mp hp (Point.uses_of_reads hr)
    show Behind s.channel.log s.yields (if p.reads then _ else [])
    rw [hreads]
    exact hidle
  | @yield b inbox hp hinbox =>
    have hwaiting : s.waiting = b :: inbox := by
      rw [waiting_of_reads (by rw [hp]; rfl), hinbox]
    rw [hwaiting] at h
    show Behind _ _ ((s.channel.setConn s.made _).conns s.made).inbox
    rw [Channel.setConn_self]
    exact h.take
  | fail _ _ => exact hidle

/-- **The yields of an iterator are a part of what was published, byte for byte, in order and each
message at most once, whatever connections are lost.** -/
theorem yields_sublist (h : (machine d).Reachable s) : s.yields.Sublist s.channel.log := by
  have hinv : Sound s ∧ Behind s.channel.log s.yields s.waiting := by
    refine h.invariant (I := fun s => Sound s ∧ Behind s.channel.log s.yields s.waiting) ?_ ?_
    · intro s hinit
      refine ⟨sound_of_reachable (.init hinit), ?_⟩
      obtain ⟨hch, -, -, hpoint, hyields⟩ := hinit
      have hwaiting : s.waiting = [] := by simp [State.waiting, hpoint, Point.reads]
      rw [hch, hyields, hwaiting]
      exact .of_sublist (List.Sublist.refl _)
    · rintro s e t ⟨hs, hb⟩ hstep
      exact ⟨hs.move (move_of_step hstep), behind_move hs hb (move_of_step hstep)⟩
  exact hinv.2.sublist

section Example

/-- An iterator before its start. -/
def newState : State := ⟨⟨[], fun _ => .idle⟩, 0, fun _ => false, .unstarted, []⟩

lemma newState_init (d : Bool) : (machine d).init newState := ⟨rfl, rfl, fun _ => rfl, rfl, rfl⟩

/-- A connection loses the first of two messages, and the client subscribes it again. -/
def lossyRun : List Event :=
  [.resume .next, .subscribe 1, .resume .next, .publish [1], .publish [2], .lose 1 [[2]],
    .publish [3], .subscribe 1, .publish [4], .receive, .resume .next, .receive]

theorem lossyRun_sublist : ∃ s, (machine false).run newState lossyRun = some s ∧
    s.yields = [[2], [4]] ∧ s.yields.Sublist s.channel.log := by
  obtain ⟨s, hs, hyields⟩ : ∃ s, (machine false).run newState lossyRun = some s ∧
      s.yields = [[2], [4]] := ⟨_, rfl, rfl⟩
  exact ⟨s, hs, hyields, yields_sublist ((Machine.Reachable.init (newState_init _)).run hs)⟩

end Example

/-! ## Runs in which no connection in use is lost -/

/-- No connection of the pubsub in use is lost. -/
def Kept (s : State) : Event → Prop
  | .lose c _ => c ≠ s.made
  | _ => True

instance (s : State) : (e : Event) → Decidable (Kept s e)
  | .lose c _ => inferInstanceAs (Decidable (c ≠ s.made))
  | .publish _ | .subscribe _ | .resume _ | .receive => inferInstanceAs (Decidable True)

/-- What was published is cut into gaps and pieces, and what waits in a subscribed connection is the
rest. -/
structure Pieces (s : State) : Prop where
  cut : ∃ rest, Cut s.channel.log s.made s.yields rest
  subscribed : s.point.reads = true → s.conn.subscribed = true →
    Cut s.channel.log s.made s.yields s.conn.inbox
  unsubscribed : s.point.reads = true → s.conn.subscribed = false →
    s.conn.inbox = [] ∧ ∃ n rest, s.made = n + 1 ∧ Cut s.channel.log n s.yields rest

/-- The reader has left the pubsub in use. -/
lemma Pieces.of_not_reads (hcut : ∃ rest, Cut s.channel.log s.made s.yields rest)
    (h : s.point.reads = false) : Pieces s :=
  ⟨hcut, fun hr => absurd hr (by simp [h]), fun hr => absurd hr (by simp [h])⟩

/-- Nothing changes but connections that are not in use. -/
lemma Pieces.frame (h : Pieces s) {p : Point} {ch : Channel Bytes} {held : ℕ → Bool}
    (hlog : ch.log = s.channel.log) (hconn : ch.conns s.made = s.conn)
    (hp : p.reads = true → s.point.reads = true) :
    Pieces { s with channel := ch, held := held, point := p } where
  cut := by
    show ∃ rest, Cut ch.log s.made s.yields rest
    rw [hlog]
    exact h.cut
  subscribed hr hsub := by
    have hsub' : s.conn.subscribed = true := hconn ▸ hsub
    show Cut ch.log s.made s.yields (ch.conns s.made).inbox
    rw [hlog, hconn]
    exact h.subscribed (hp hr) hsub'
  unsubscribed hr hsub := by
    have hsub' : s.conn.subscribed = false := hconn ▸ hsub
    show (ch.conns s.made).inbox = [] ∧ ∃ n rest, s.made = n + 1 ∧ Cut ch.log n s.yields rest
    rw [hlog, hconn]
    exact h.unsubscribed (hp hr) hsub'

lemma Pieces.publish (h : Pieces s) (b : Bytes) :
    Pieces { s with channel := s.channel.publish b } where
  cut := by
    obtain ⟨rest, hcut⟩ := h.cut
    exact ⟨rest ++ [b], hcut.append b⟩
  subscribed hr hsub := by
    have hsub' : s.conn.subscribed = true := by
      rwa [State.conn, Channel.publish_subscribed] at hsub
    have hconn := Channel.publish_of_subscribed (a := b) hsub'
    show Cut _ s.made s.yields ((s.channel.publish b).conns s.made).inbox
    rw [hconn]
    exact (h.subscribed hr hsub').append b
  unsubscribed hr hsub := by
    have hsub' : s.conn.subscribed = false := by
      rwa [State.conn, Channel.publish_subscribed] at hsub
    have hconn := Channel.publish_of_not_subscribed (a := b) hsub'
    obtain ⟨hnil, n, rest, hn, hcut⟩ := h.unsubscribed hr hsub'
    refine ⟨?_, n, rest ++ [b], hn, hcut.append b⟩
    show ((s.channel.publish b).conns s.made).inbox = []
    rw [hconn]
    exact hnil

/-- The server subscribes the connection in use, again or for the first time. -/
lemma Pieces.subscribe (h : Pieces s) : Pieces (s.setConn ⟨true, s.conn.inbox⟩) := by
  have hconn : (s.setConn ⟨true, s.conn.inbox⟩).conn = ⟨true, s.conn.inbox⟩ :=
    Channel.setConn_self
  refine ⟨h.cut, fun hr _ => ?_, fun _ hsub => ?_⟩
  · rw [hconn]
    show Cut s.channel.log s.made s.yields s.conn.inbox
    cases hsub : s.conn.subscribed with
    | true => exact h.subscribed hr hsub
    | false =>
      obtain ⟨hnil, n, rest, hn, hcut⟩ := h.unsubscribed hr hsub
      rw [hnil, hn]
      exact hcut.start
  · rw [hconn] at hsub
    cases hsub

lemma pieces_move (hs : Sound s) (h : Pieces s) (hk : Kept s e) (hm : Move s e t) :
    Pieces t := by
  cases hm with
  | publish b => exact h.publish b
  | @subscribe c _ =>
    by_cases hc : c = s.made
    · subst hc
      exact h.subscribe
    · exact h.frame rfl (Channel.setConn_of_ne (Ne.symm hc)) id
  | lose _ => exact h.frame rfl (Channel.setConn_of_ne (Ne.symm hk)) id
  | make _ =>
    obtain ⟨rest, hcut⟩ := h.cut
    have hconn := hs.fresh (s.made + 1) (Nat.lt_succ_self _)
    refine ⟨⟨rest, hcut.idle⟩, fun _ hsub => ?_, fun _ _ => ⟨?_, s.made, rest, rfl, hcut⟩⟩
    · have hsub' : (s.channel.conns (s.made + 1)).subscribed = true := hsub
      rw [hconn] at hsub'
      cases hsub'
    · show (s.channel.conns (s.made + 1)).inbox = []
      rw [hconn]
      rfl
  | turn hreads _ => exact h.frame rfl rfl hreads
  | unsubscribe _ => exact .of_not_reads h.cut rfl
  | @close p _ hp =>
    have hreads : p.reads = false := Bool.eq_false_iff.mpr fun hr =>
      Bool.eq_false_iff.mp hp (Point.uses_of_reads hr)
    exact .of_not_reads h.cut hreads
  | @yield b inbox hp hinbox =>
    have hreads : s.point.reads = true := by rw [hp]; rfl
    -- an unsubscribed connection has nothing to read
    have hsub : s.conn.subscribed = true := by
      by_contra hsub
      have hnil := (h.unsubscribed hreads (Bool.eq_false_iff.mpr hsub)).1
      rw [hinbox] at hnil
      cases hnil
    have hcut := h.subscribed hreads hsub
    rw [hinbox] at hcut
    obtain ⟨n, hn⟩ : ∃ n, s.made = n + 1 :=
      Nat.exists_eq_add_one.mpr (hs.held _ (hs.uses (Point.uses_of_reads hreads))).1
    rw [hn] at hcut
    have htake : Cut s.channel.log s.made (s.yields ++ [b]) inbox := by
      rw [hn]
      exact hcut.take
    refine ⟨⟨inbox, htake⟩, fun _ _ => ?_, fun _ hfalse => ?_⟩
    · show Cut _ _ _ ((s.channel.setConn s.made _).conns s.made).inbox
      rw [Channel.setConn_self]
      exact htake
    · have hfalse' : ((s.channel.setConn s.made ⟨s.conn.subscribed, inbox⟩).conns
          s.made).subscribed = false := hfalse
      rw [Channel.setConn_self] at hfalse'
      exact absurd (hsub.symm.trans hfalse') (by decide)
  | fail _ _ => exact .of_not_reads h.cut rfl

/-- **While no connection in use is lost, an iterator misses at most one gap for each pubsub: what
was published is a gap and a piece for each of them, one after the other, and a rest; the pieces
make up the yields, and what waits in the connection that is being read is the rest.** -/
theorem yields_pieces (h : (machine d).Reach Kept s) :
    ∃ parts : List (List Bytes × List Bytes), ∃ rest, parts.length = s.made ∧
      s.channel.log = (parts.flatMap fun p => p.1 ++ p.2) ++ rest ∧
      s.yields = parts.flatMap Prod.snd ∧
      (s.point.reads = true → s.conn.subscribed = true → rest = s.conn.inbox) := by
  have hinv : Pieces s := by
    refine (h.invariant (I := fun s => Sound s ∧ Pieces s) ?_ ?_).2
    · intro s hinit
      refine ⟨sound_of_reachable (.init hinit), ?_⟩
      obtain ⟨hch, hmade, -, hpoint, hyields⟩ := hinit
      refine .of_not_reads ?_ (by rw [hpoint]; rfl)
      rw [hch, hmade, hyields]
      exact ⟨[], .nil []⟩
    · rintro s e t ⟨hs, hp⟩ hk hstep
      exact ⟨hs.move (move_of_step hstep), pieces_move hs hp hk (move_of_step hstep)⟩
  by_cases hread : s.point.reads = true ∧ s.conn.subscribed = true
  · obtain ⟨parts, hn, hlog, hyields⟩ := hinv.subscribed hread.1 hread.2
    exact ⟨parts, _, hn, hlog, hyields, fun _ _ => rfl⟩
  · obtain ⟨rest, parts, hn, hlog, hyields⟩ := hinv.cut
    exact ⟨parts, rest, hn, hlog, hyields, fun hr hsub => absurd ⟨hr, hsub⟩ hread⟩

section Example

/-- One message is read, the connection breaks while another is published, and the third message is
read over a new pubsub. -/
def brokenRun : List Event :=
  [.resume .next, .subscribe 1, .resume .next, .publish [1], .receive, .resume .next,
    .resume .raised, .resume .next, .publish [2], .resume .next, .subscribe 2, .resume .next,
    .publish [3], .receive]

theorem brokenRun_pieces : ∃ s, (machine false).run newState brokenRun = some s ∧
    s.channel.log = [[1], [2], [3]] ∧ s.yields = [[1], [3]] ∧
    ∃ parts : List (List Bytes × List Bytes), ∃ rest, parts.length = 2 ∧
      s.channel.log = (parts.flatMap fun p => p.1 ++ p.2) ++ rest ∧
      s.yields = parts.flatMap Prod.snd := by
  obtain ⟨s, hs, hlog, hyields, hmade⟩ : ∃ s, (machine false).run newState brokenRun = some s ∧
      s.channel.log = [[1], [2], [3]] ∧ s.yields = [[1], [3]] ∧ s.made = 2 :=
    ⟨_, rfl, rfl, rfl, rfl⟩
  have halong : (machine false).Along Kept newState brokenRun := by decide
  obtain ⟨parts, rest, hn, hparts, hread, -⟩ :=
    yields_pieces (Machine.Reach.run (.init (newState_init false)) halong hs)
  exact ⟨s, hs, hlog, hyields, parts, rest, hn.trans hmade, hparts, hread⟩

end Example

/-! ## What is left open -/

/-- Only the pubsub in use is held, or subscribed at the server. -/
def Released (s : State) : Prop :=
  ∀ c, s.held c = true ∨ (s.channel.conns c).subscribed = true →
    c = s.made ∧ s.point.uses = true

/-- The generator does not let go of a pubsub that is not closed. -/
def Cooperates (s : State) : Event → Prop
  | .resume a => abandons s.point a = false
  | _ => True

instance (s : State) : (e : Event) → Decidable (Cooperates s e)
  | .resume a => inferInstanceAs (Decidable (abandons s.point a = false))
  | .publish _ | .subscribe _ | .lose _ _ | .receive => inferInstanceAs (Decidable True)

/-- It is enough to look at what is held. -/
lemma Sound.released_iff (h : Sound s) :
    Released s ↔ ∀ c, s.held c = true → c = s.made ∧ s.point.uses = true :=
  ⟨fun hr c hc => hr c (.inl hc), fun hr c hc => hr c (hc.elim id (h.subscribed c))⟩

lemma released_move (hs : Sound s) (ht : Sound t) (h : Released s) (hm : Move s e t) :
    Released t ↔ Cooperates s e := by
  rw [ht.released_iff]
  rw [hs.released_iff] at h
  cases hm with
  | publish b => exact iff_of_true h trivial
  | subscribe _ => exact iff_of_true h trivial
  | lose _ => exact iff_of_true h trivial
  | make hp =>
    refine iff_of_true (fun c hc => ?_) ?_
    · have hc' : c = s.made + 1 ∨ s.held c = true := by
        simpa [Function.update_apply] using hc
      rcases hc' with rfl | hc'
      · exact ⟨rfl, rfl⟩
      · -- no pubsub is in use, so none is held
        exact absurd (h c hc').2 (by simp [hp])
    · show abandons s.point .next = false
      cases s.point <;> rfl
  | @turn a p _ huses =>
    cases hp : s.point.uses with
    | false =>
      refine iff_of_true (fun c hc => absurd (h c hc).2 (by simp [hp])) ?_
      show abandons s.point a = false
      cases hpoint : s.point <;> rw [hpoint] at hp <;> cases a <;> first | rfl | cases hp
    | true =>
      constructor
      · intro ht
        exact (huses.mp (ht s.made (hs.uses hp)).2).2
      · intro hcoop c hc
        exact ⟨(h c hc).1, huses.mpr ⟨hp, hcoop⟩⟩
  | unsubscribe hp =>
    refine iff_of_true (fun c hc => ⟨(h c hc).1, rfl⟩) ?_
    show abandons s.point .next = false
    rw [hp]
    rfl
  | close huses hp =>
    refine iff_of_true (fun c hc => ?_) ?_
    · have hc' : c ≠ s.made ∧ s.held c = true := by simpa [Function.update_apply] using hc
      exact absurd (h c hc'.2).1 hc'.1
    · show abandons s.point .next = false
      cases s.point <;> rfl
  | yield hp _ => exact iff_of_true (fun c hc => ⟨(h c hc).1, rfl⟩) trivial
  | fail hp _ => exact iff_of_true (fun c hc => ⟨(h c hc).1, rfl⟩) trivial

/-- **An iterator never leaves a pubsub open exactly if it is not closed at its `yield`, no second
cancellation comes while it unsubscribes, and no `aclose` of a pubsub fails or is cancelled.** -/
theorem released_iff_cooperates {es : List Event} (hi : (machine d).init s)
    (hr : (machine d).run s es = some t) :
    (machine d).Throughout Released s es ↔ (machine d).Along Cooperates s es := by
  refine Machine.throughout_iff_along ?_ ?_ hi hr
  · rintro s ⟨hch, -, hheld, -, -⟩ c hc
    rcases hc with hc | hc
    · rw [hheld] at hc
      cases hc
    · rw [hch] at hc
      cases hc
  · intro s e t hreach hrel hstep
    have hs : Sound s := sound_of_reachable hreach.reachable
    exact released_move hs (hs.move (move_of_step hstep)) hrel (move_of_step hstep)

section Example

/-- The consumer breaks out of its loop after a message, and the iterator is closed. -/
def brokenLoop : List Event :=
  [.resume .next, .subscribe 1, .resume .next, .publish [1], .receive, .resume .closed]

theorem brokenLoop_not_released : ∃ t, (machine false).run newState brokenLoop = some t ∧
    t.point = .ended ∧ ¬ (machine false).Throughout Released newState brokenLoop := by
  obtain ⟨t, ht, hpoint⟩ : ∃ t, (machine false).run newState brokenLoop = some t ∧
      t.point = .ended := ⟨_, rfl, rfl⟩
  have halong : ¬ (machine false).Along Cooperates newState brokenLoop := by decide
  exact ⟨t, ht, hpoint, fun h => halong ((released_iff_cooperates (newState_init _) ht).mp h)⟩

end Example

end Omkit.Valkeysub
