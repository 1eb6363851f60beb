import Omkit.Crypto.AesGcm

/-!
# Errors of key management
-/

namespace Omkit.Kms

open Lib Crypto

/-- What a method of a KMS raises, over a type `M` of messages. -/
inductive KmsExc (M : Type)
  /-- `KMSAuthError(message, status=status)`. -/
  | auth (message : M) (status : ℕ)
  /-- `KMSUnavailableError(message, status=status)`. -/
  | unavailable (message : M) (status : ℕ)
  /-- An exception of the envelope helpers. -/
  | crypto (e : AesGcmError)
  /-- An exception of the language. -/
  | std (e : StdExc)
deriving DecidableEq

/-- Is the exception an instance of `KMSError`? -/
def KmsExc.isKmsError {M : Type} : KmsExc M → Bool
  | auth _ _ | unavailable _ _ => true
  | _ => false

/-- `s.encode()`, which raises for a surrogate. -/
def encoded {M : Type} (s : PyStr) : Except (KmsExc M) Bytes :=
  match encode s with
  | some b => .ok b
  | none => .error (.std .unicodeEncodeError)

lemma encoded_eq_ok {M : Type} {s : PyStr} {b : Bytes} :
    (encoded s : Except (KmsExc M) Bytes) = .ok b ↔ encode s = some b := by
  unfold encoded
  cases encode s <;> simp

lemma encoded_of_not_wellFormed {M : Type} {s : PyStr} (h : ¬ WellFormed s) :
    (encoded s : Except (KmsExc M) Bytes) = .error (.std .unicodeEncodeError) := by
  have hnone : encode s = none := by
    rw [Option.eq_none_iff_forall_ne_some]
    exact fun b hb => h (wellFormed_iff_encode.mpr ⟨b, hb⟩)
  rw [encoded, hnone]

end Omkit.Kms
