import Mathlib.Data.List.Basic
import Mathlib.Logic.Function.Basic

/-!
# A channel and its subscribers

What is published on a channel goes to the connections that are subscribed at that moment, and waits
there until it is read.  A connection may lose what waits in it.  A reader that reads from one
connection after the other reads a part of what was published, in order (`Behind`); if no
connection loses anything, it misses at most one gap for each connection (`Cut`).
-/

namespace Omkit.Lib

variable {α : Type*}

/-- A connection: whether it is subscribed, and what waits to be read. -/
structure Conn (α : Type*) where
  subscribed : Bool
  inbox : List α

/-- A connection before it is subscribed, or after its end. -/
def Conn.idle : Conn α := ⟨false, []⟩

/-- What was published, and the connections. -/
structure Channel (α : Type*) where
  log : List α
  conns : ℕ → Conn α

namespace Channel

/-- Publish a message. -/
def publish (ch : Channel α) (a : α) : Channel α where
  log := ch.log ++ [a]
  conns c := if (ch.conns c).subscribed then ⟨true, (ch.conns c).inbox ++ [a]⟩ else ch.conns c

/-- Change one connection. -/
def setConn (ch : Channel α) (c : ℕ) (x : Conn α) : Channel α :=
  { ch with conns := Function.update ch.conns c x }

variable {ch : Channel α} {a : α} {c c' : ℕ} {x : Conn α}

@[simp] lemma publish_log : (ch.publish a).log = ch.log ++ [a] := rfl

lemma publish_of_subscribed (h : (ch.conns c).subscribed = true) :
    (ch.publish a).conns c = ⟨true, (ch.conns c).inbox ++ [a]⟩ := if_pos h

lemma publish_of_not_subscribed (h : (ch.conns c).subscribed = false) :
    (ch.publish a).conns c = ch.conns c := by simp [publish, h]

@[simp] lemma publish_subscribed :
    ((ch.publish a).conns c).subscribed = (ch.conns c).subscribed := by
  cases h : (ch.conns c).subscribed with
  | true => rw [publish_of_subscribed h]
  | false => rw [publish_of_not_subscribed h, h]

@[simp] lemma setConn_log : (ch.setConn c x).log = ch.log := rfl

@[simp] lemma setConn_self : (ch.setConn c x).conns c = x := Function.update_self ..

lemma setConn_of_ne (h : c' ≠ c) : (ch.setConn c x).conns c' = ch.conns c' :=
  Function.update_of_ne h ..

end Channel

/-! ## A reader over lossy connections -/

/-- What was read was published before what is still to be read. -/
def Behind (log read inbox : List α) : Prop :=
  ∃ past rest, log = past ++ rest ∧ read.Sublist past ∧ inbox.Sublist rest

namespace Behind

variable {log read inbox inbox' : List α} {a : α}

lemma sublist (h : Behind log read inbox) : read.Sublist log := by
  obtain ⟨past, rest, rfl, hread, -⟩ := h
  exact hread.trans (List.sublist_append_left past rest)

lemma append (h : Behind log read inbox) (a : α) : Behind (log ++ [a]) read (inbox ++ [a]) := by
  obtain ⟨past, rest, rfl, hread, hinbox⟩ := h
  exact ⟨past, rest ++ [a], List.append_assoc .., hread, hinbox.append (List.Sublist.refl _)⟩

lemma mono (h : Behind log read inbox) (hsub : inbox'.Sublist inbox) :
    Behind log read inbox' := by
  obtain ⟨past, rest, hlog, hread, hinbox⟩ := h
  exact ⟨past, rest, hlog, hread, hsub.trans hinbox⟩

lemma skip (h : Behind log read inbox) (a : α) : Behind (log ++ [a]) read inbox :=
  (h.append a).mono (List.sublist_append_left inbox [a])

/-- The first message that waits is read. -/
lemma take (h : Behind log read (a :: inbox)) : Behind log (read ++ [a]) inbox := by
  obtain ⟨past, rest, rfl, hread, hinbox⟩ := h
  obtain ⟨l, r, rfl, hmem, hinbox⟩ := List.cons_sublist_iff.mp hinbox
  have ha : [a].Sublist l := List.singleton_sublist.mpr hmem
  exact ⟨past ++ l, r, (List.append_assoc ..).symm, hread.append ha, hinbox⟩

lemma of_sublist (h : read.Sublist log) : Behind log read [] :=
  ⟨log, [], (List.append_nil log).symm, h, List.Sublist.refl _⟩

end Behind

/-! ## A reader over connections that lose nothing -/

/-- The log is a gap and a piece for each of `n` connections, and a rest; the pieces were read. -/
def Cut (log : List α) (n : ℕ) (read rest : List α) : Prop :=
  ∃ parts : List (List α × List α), parts.length = n ∧
    log = (parts.flatMap fun p => p.1 ++ p.2) ++ rest ∧ read = parts.flatMap Prod.snd

namespace Cut

variable {log read rest : List α} {n : ℕ} {a : α}

lemma nil (log : List α) : Cut log 0 [] log := ⟨[], rfl, rfl, rfl⟩

lemma append (h : Cut log n read rest) (a : α) : Cut (log ++ [a]) n read (rest ++ [a]) := by
  obtain ⟨parts, hn, rfl, hread⟩ := h
  exact ⟨parts, hn, List.append_assoc .., hread⟩

/-- A connection of which nothing is read. -/
lemma idle (h : Cut log n read rest) : Cut log (n + 1) read rest := by
  obtain ⟨parts, hn, rfl, rfl⟩ := h
  exact ⟨parts ++ [([], [])], by simp [hn], by simp, by simp⟩

/-- A connection is subscribed; it misses what was published before. -/
lemma start (h : Cut log n read rest) : Cut log (n + 1) read [] := by
  obtain ⟨parts, hn, rfl, rfl⟩ := h
  exact ⟨parts ++ [(rest, [])], by simp [hn], by simp, by simp⟩

/-- The first message that waits in the latest connection is read. -/
lemma take (h : Cut log (n + 1) read (a :: rest)) : Cut log (n + 1) (read ++ [a]) rest := by
  obtain ⟨parts, hn, rfl, rfl⟩ := h
  obtain rfl | ⟨parts, ⟨gap, piece⟩, rfl⟩ := parts.eq_nil_or_concat'
  · cases hn
  · exact ⟨parts ++ [(gap, piece ++ [a])], by simpa using hn, by simp, by simp⟩

end Cut

end Omkit.Lib
