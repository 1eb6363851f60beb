import Omkit.Lib.Json.Bytes
import Omkit.Lib.Json.Injective
import Omkit.Scheduler.Reconcile

/-!
# Changed rows

`_config_hash` hashes the cron specification, a NUL and the canonical text of the config.  The
specification may hold a NUL itself, but the text of the config is printable, so the last NUL of
the bytes is the separator: two rows with the same bytes have the same specification and the same
config.
-/

namespace Omkit.Scheduler

open Lib

/-- A list is taken apart at the last occurrence of a separator. -/
lemma split_at_last {α : Type} {a : α} {l l' m m' : List α} (hm : a ∉ m) (hm' : a ∉ m')
    (h : l ++ a :: m = l' ++ a :: m') : l = l' ∧ m = m' := by
  rcases List.append_eq_append_iff.mp h with ⟨k, hl, hk⟩ | ⟨k, hl, hk⟩
  · cases k with
    | nil => exact ⟨by simpa using hl.symm, (List.cons.inj hk).2⟩
    | cons x k => exact absurd (by simp [(List.cons.inj hk).2]) hm
  · cases k with
    | nil => exact ⟨by simpa using hl, (List.cons.inj hk).2.symm⟩
    | cons x k => exact absurd (by simp [(List.cons.inj hk).2]) hm'

section

variable {F : Type} [JsonRuntime F] {cronspec cronspec' : PyStr} {cfg cfg' : Json F} {b b' : Bytes}

/-- What is hashed are the bytes of one string, with the separator in it. -/
lemma hashInput_eq_ok (h : hashInput cronspec cfg = .ok b) :
    check (JsonRuntime.maxDepth F) cfg = .ok () ∧
      encode (cronspec ++ .scalar '\x00' :: render .compact (sortKeys cfg)) = some b := by
  unfold hashInput at h
  cases hd : dumps .compact (sortKeys cfg) with
  | error e => simp [hd, bind, Except.bind] at h
  | ok s =>
    obtain ⟨hc, rfl⟩ := dumps_eq_ok.mp hd
    simp only [hd, bind, Except.bind] at h
    split at h
    · next body spec hbody hspec =>
      obtain rfl := Except.ok.inj h
      obtain ⟨l, hl, rfl⟩ := encode_eq_some.mp hbody
      obtain ⟨m, rfl, rfl⟩ := encode_eq_some.mp hspec
      refine ⟨check_sortKeys.mp hc, encode_eq_some.mpr ⟨m ++ '\x00' :: l, by simp [hl], ?_⟩⟩
      rw [utf8_append]
      rfl
    · cases h

/-- The text of a config holds no NUL. -/
lemma nul_notMem_render (v : Json F) : PyChar.scalar '\x00' ∉ render .compact v := by
  intro h
  obtain ⟨c, hc, hle, -⟩ := printable_render DumpOpts.compact_ascii v _ h
  obtain rfl := PyChar.scalar.inj hc
  exact absurd hle (by decide)

/-- **The bytes that are hashed determine the cron specification and the config.** -/
theorem same_of_hashInput_eq (h : hashInput cronspec cfg = .ok b)
    (h' : hashInput cronspec' cfg' = .ok b) : cronspec = cronspec' ∧ SameValue cfg cfg' := by
  obtain ⟨hc, hb⟩ := hashInput_eq_ok h
  obtain ⟨hc', hb'⟩ := hashInput_eq_ok h'
  obtain ⟨hspec, htext⟩ :=
    split_at_last (nul_notMem_render _) (nul_notMem_render _) (encode_injOn hb hb')
  have hstops : Stops [] := fun x hx => by cases hx
  refine ⟨hspec, (sortKeys_render_inj DumpOpts.compact_ok rfl hc hc' hstops hstops ?_).1⟩
  rw [htext]

/-- Without surrogates, the bytes are the same exactly for the same specification and the same
config, with its keys in any order. -/
theorem hashInput_eq_iff (hv : cfg.Wf) (hw : cfg'.Wf) (h : hashInput cronspec cfg = .ok b)
    (h' : hashInput cronspec' cfg' = .ok b') :
    b = b' ↔ cronspec = cronspec' ∧ Reordered cfg cfg' := by
  constructor
  · rintro rfl
    obtain ⟨hspec, hcfg⟩ := same_of_hashInput_eq h h'
    exact ⟨hspec, hcfg.reordered hv hw⟩
  · rintro ⟨rfl, hcfg⟩
    rw [hashInput, hcfg.sortKeys_eq, ← hashInput, h'] at h
    exact (Except.ok.inj h).symm

/-- **A changed row gets a different hash.** -/
theorem config_change_detected (h : hashInput cronspec cfg = .ok b)
    (h' : hashInput cronspec' cfg' = .ok b') (hne : cronspec ≠ cronspec' ∨ ¬SameValue cfg cfg') :
    b ≠ b' ∧ ((Sha256.hexdigest b = Sha256.hexdigest b' → b = b') →
      configHash cronspec cfg ≠ configHash cronspec' cfg') := by
  have hbytes : b ≠ b' := by
    rintro rfl
    obtain ⟨hspec, hcfg⟩ := same_of_hashInput_eq h h'
    rcases hne with hne | hne
    · exact hne hspec
    · exact hne hcfg
  refine ⟨hbytes, fun hcoll heq => hbytes (hcoll ?_)⟩
  rw [configHash, configHash, h, h'] at heq
  exact Except.ok.inj heq

end

theorem retyped_change_detected :
    configHash (text "a\x00b") (.obj [(text "n", .int 1)] : Json Empty) ≠
      configHash (text "a\x00b") (.obj [(text "n", .str (text "1"))] : Json Empty) := by
  refine (config_change_detected rfl rfl (Or.inr ?_)).2 (by decide +kernel)
  intro h
  cases h with
  | obj hperm hkeys hvalues =>
    obtain rfl := List.perm_singleton.mp hperm.symm
    cases hvalues with
    | cons hv _ => cases hv

end Omkit.Scheduler
