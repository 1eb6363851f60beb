import Omkit.Sessions.Latest

/-!
# Expiry

Postgres compares the expiry of a row with the clock whenever it reads it.  Redis counts a time to
live from the write on, in whole seconds and at least one, and never looks at the expiry again: it
keeps a session past its expiry if less than a second was left, or if the write came later after the
reading of the clock than the fraction that was cut off.
-/

namespace Omkit.Sessions

open Lib

/-! ## The time to live -/

variable {F : Type} [JsonRuntime F] [PyNumbers F] [Postgres F] {s s' : State F}

/-- From now on, a `get` or a `list` returns a session only before its expiry. -/
def Unexpired (s : State F) : Prop :=
  ∀ t : Aware, s.now.micros ≤ t.micros → ∀ x, s.store.Returns t x →
    ∃ e, x.expiresAt.instant = some e ∧ t.micros < e

/-- The deadline of each session in Redis is past or no later than its expiry. -/
def InTime (s : State F) : Prop :=
  ∀ r, s.store = .redis r → ∀ token p, s.puts.get? token = some p →
    ∃ e, p.session.expiresAt.instant = some e ∧ (p.deadline ≤ e ∨ p.deadline ≤ s.now.micros)

omit [JsonRuntime F] [PyNumbers F] [Postgres F] in
/-- Puts that are left in time stay so. -/
lemma InTime.mono (h : InTime s) (hnow : s.now.micros ≤ s'.now.micros)
    (hsub : ∀ r', s'.store = .redis r' → ∃ r, s.store = .redis r)
    (hputs : ∀ token p, s'.puts.get? token = some p → s.puts.get? token = some p) : InTime s' := by
  intro r' hst' token p hp
  obtain ⟨r, hst⟩ := hsub r' hst'
  obtain ⟨e, he, hor⟩ := h r hst token p (hputs token p hp)
  exact ⟨e, he, by omega⟩

end Omkit.Sessions
