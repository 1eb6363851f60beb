import Omkit.Kms.LocalDev
import Omkit.Lib.StrictBase64
import Omkit.Lib.Whitespace
import Omkit.Tenant.Spelling

/-!
# The master secret from the environment

`LocalDevKMS.from_env` reads the secret as hexadecimal digits, then as strict base64, and then as
URL-safe base64 with more padding.  A secret of 32 bytes has many spellings, no two secrets share
one, and whichever is given, the adapter has that secret.
-/

namespace Omkit.Kms

open Lib

/-- What `from_env` raises. -/
inductive EnvError
  | runtimeError (message : PyStr)
  | valueError (message : PyStr)
deriving DecidableEq

/-- The bytes that `from_env` reads in a stripped text. -/
def decodeMaster (s : PyStr) : Option Bytes :=
  match (Tenant.fromHex s).toOption.filter fun b => b.length = masterSize with
  | some decoded => some decoded
  | none => match b64decodeStrict s with
    | some decoded => some decoded
    | none => urlsafeB64decode (s ++ text "==")

/-- `from_env`, with the name and the value of the variable. -/
def LocalDevKMS.fromEnv (envVar : PyStr) (env : Option PyStr) : Except EnvError LocalDevKMS :=
  match env.filter (· ≠ []) with
  | none => .error (.runtimeError (envVar ++ text " not set"))
  | some raw => match decodeMaster (strip raw) with
    | none => .error (.valueError (envVar ++ text " must be hex or base64-encoded " ++
        natText masterSize ++ text " bytes"))
    | some decoded =>
      if decoded.length ≠ masterSize then
        .error (.valueError (envVar ++ text " decoded to " ++ natText decoded.length ++
          text " bytes, need " ++ natText masterSize))
      else (LocalDevKMS.init decoded).mapError .valueError

/-! ## Spellings -/

/-- The bytes in hexadecimal digits, with or without white space between two bytes. -/
inductive HexSpelling : Bytes → PyStr → Prop
  | last {x y h l} (hx : hexVal x = some h) (hy : hexVal y = some l) :
    HexSpelling [UInt8.ofNat (16 * h + l)] [x, y]
  | cons {x y h l w b s} (hx : hexVal x = some h) (hy : hexVal y = some l)
    (hw : ∀ z ∈ w, isCSpace z = true) (hs : HexSpelling b s) :
    HexSpelling (UInt8.ofNat (16 * h + l) :: b) (x :: y :: (w ++ s))

/-- The bytes in hexadecimal digits, or in base64, of either alphabet, with or without padding. -/
inductive Spells (b : Bytes) : PyStr → Prop
  | hex {s} (h : HexSpelling b s) : Spells b s
  | base64 {s} (h : s.map ofUrlSafe = b64encode b) : Spells b s
  | base64Unpadded {s} (h : s.map ofUrlSafe = unpadded (b64encode b)) : Spells b s

/-! ## Hexadecimal digits -/

/-- A character of ASCII that shows. -/
def Visible (x : PyChar) : Prop := ∃ c : Char, x = .scalar c ∧ 32 < c.toNat ∧ c.toNat < 128

lemma Visible.isSpace {x : PyChar} (h : Visible x) : isSpace x = false := by
  obtain ⟨c, rfl, hlow, hhigh⟩ := h
  simp only [Lib.isSpace, Bool.or_eq_false_iff, Bool.and_eq_false_iff, decide_eq_false_iff_not,
    beq_eq_false_iff_ne]
  omega

lemma visible_of_hexVal {x : PyChar} {h : ℕ} (hx : hexVal x = some h) : Visible x := by
  cases x with
  | surrogate k => cases hx
  | scalar c =>
    have hle : ∀ {a b : Char}, a ≤ b ↔ a.toNat ≤ b.toNat := by
      intro a b
      rw [Char.le_def, UInt32.le_iff_toNat_le]
      rfl
    have h0 : '0'.toNat = 48 := rfl
    have h9 : '9'.toNat = 57 := rfl
    have ha : 'a'.toNat = 97 := rfl
    have hf : 'f'.toNat = 102 := rfl
    have hA : 'A'.toNat = 65 := rfl
    have hF : 'F'.toNat = 70 := rfl
    refine ⟨c, rfl, ?_⟩
    simp only [hexVal, hle] at hx
    split_ifs at hx <;> omega

lemma hexVal_of_isCSpace {x : PyChar} (h : isCSpace x = true) : hexVal x = none := by
  have hall : ∀ x ∈ text " \t\n\r" ++ [.scalar '\x0b', .scalar '\x0c'], hexVal x = none := by decide
  exact hall x (of_decide_eq_true h)

lemma isAscii_of_isCSpace {x : PyChar} (h : isCSpace x = true) : isAscii x = true := by
  have hall : ∀ x ∈ text " \t\n\r" ++ [.scalar '\x0b', .scalar '\x0c'], isAscii x = true := by
    decide
  exact hall x (of_decide_eq_true h)

lemma not_isCSpace_of_hexVal {x : PyChar} {h : ℕ} (hx : hexVal x = some h) :
    ¬ isCSpace x = true := by
  intro hspace
  rw [hexVal_of_isCSpace hspace] at hx
  cases hx

lemma hexPairs_skip {w s : PyStr} (hw : ∀ z ∈ w, isCSpace z = true) (hs : s ≠ []) (pos : ℕ) :
    Tenant.hexPairs pos (w ++ s) = Tenant.hexPairs (pos + w.length) s := by
  induction w generalizing pos with
  | nil => rfl
  | cons z w ih =>
    obtain ⟨hz, hw⟩ := List.forall_mem_cons.mp hw
    have hne : w ++ s ≠ [] := List.append_ne_nil_of_right_ne_nil w hs
    obtain ⟨y, r, hr⟩ := List.exists_cons_of_ne_nil hne
    rw [List.cons_append, hr, Tenant.hexPairs, if_pos hz, ← hr, ih hw, List.length_cons,
      Nat.add_assoc, Nat.add_comm 1]

lemma HexSpelling.ne_nil {b : Bytes} {s : PyStr} (h : HexSpelling b s) : s ≠ [] := by
  cases h <;> exact List.cons_ne_nil _ _

/-- A pair of digits is a byte. -/
lemma hexPairs_pair {x y : PyChar} {h l : ℕ} (hx : hexVal x = some h) (hy : hexVal y = some l)
    (s : PyStr) (pos : ℕ) : Tenant.hexPairs pos (x :: y :: s) =
      (Tenant.hexPairs (pos + 2) s).map (UInt8.ofNat (16 * h + l) :: ·) := by
  rw [Tenant.hexPairs, if_neg (not_isCSpace_of_hexVal hx), hx, hy]

lemma HexSpelling.hexPairs {b : Bytes} {s : PyStr} (h : HexSpelling b s) (pos : ℕ) :
    Tenant.hexPairs pos s = .ok b := by
  induction h generalizing pos with
  | last hx hy =>
    rw [hexPairs_pair hx hy]
    rfl
  | cons hx hy hw hs ih =>
    rw [hexPairs_pair hx hy, hexPairs_skip hw hs.ne_nil, ih]
    rfl

lemma Visible.isAscii {x : PyChar} (h : Visible x) : isAscii x = true := by
  obtain ⟨c, rfl, -, hc⟩ := h
  exact decide_eq_true hc

lemma HexSpelling.isAscii {b : Bytes} {s : PyStr} (h : HexSpelling b s) :
    ∀ x ∈ s, isAscii x = true := by
  induction h with
  | last hx hy =>
    rintro z (- | ⟨-, (- | ⟨-, ⟨⟩⟩)⟩)
    · exact (visible_of_hexVal hx).isAscii
    · exact (visible_of_hexVal hy).isAscii
  | cons hx hy hw hs ih =>
    rintro z (- | ⟨-, (- | ⟨-, hz⟩)⟩)
    · exact (visible_of_hexVal hx).isAscii
    · exact (visible_of_hexVal hy).isAscii
    · rcases List.mem_append.mp hz with hz | hz
      · exact isAscii_of_isCSpace (hw z hz)
      · exact ih z hz

lemma nonAscii_eq (x : PyChar) : Tenant.nonAscii x = !isAscii x := by
  cases x with
  | surrogate k => rfl
  | scalar c => exact (decide_eq_decide.mpr Nat.not_lt.symm).trans (decide_not ..)

/-- `bytes.fromhex` reads every spelling. -/
lemma HexSpelling.fromHex {b : Bytes} {s : PyStr} (h : HexSpelling b s) :
    Tenant.fromHex s = .ok b := by
  have hnone : s.findIdx? Tenant.nonAscii = none := by
    rw [List.findIdx?_eq_none_iff]
    intro x hx
    rw [nonAscii_eq, h.isAscii x hx]
    rfl
  simp only [Tenant.fromHex, hnone, h.hexPairs]
  rfl

lemma HexSpelling.solid {b : Bytes} {s : PyStr} (h : HexSpelling b s) : Solid s := by
  induction h with
  | last hx hy =>
    exact ⟨⟨_, _, rfl, (visible_of_hexVal hx).isSpace⟩, [_], _, rfl, (visible_of_hexVal hy).isSpace⟩
  | @cons x y _ _ w _ _ hx hy hw hs ih =>
    obtain ⟨t, z, rfl, hz⟩ := ih.last
    exact ⟨⟨_, _, rfl, (visible_of_hexVal hx).isSpace⟩, x :: y :: (w ++ t), z, by simp, hz⟩

lemma length_of_hexPairs {pos : ℕ} {s : PyStr} {b : Bytes} (h : Tenant.hexPairs pos s = .ok b) :
    2 * b.length ≤ s.length := by
  fun_induction Tenant.hexPairs pos s generalizing b with
  | case1 pos | case2 pos x hx =>
    obtain rfl := Except.ok.inj h
    exact Nat.zero_le _
  | case3 | case4 | case6 | case7 => cases h
  | case5 pos x y s hx ih =>
    have hlen := ih h
    simp only [List.length_cons] at hlen ⊢
    omega
  | case8 pos x y s hx v hv l hl ih =>
    cases hs : Tenant.hexPairs (pos + 2) s with
    | error e =>
      rw [hs] at h
      cases h
    | ok b' =>
      rw [hs] at h
      obtain rfl := Except.ok.inj h
      have hlen := ih hs
      simp only [List.length_cons]
      omega

lemma length_of_fromHex {s : PyStr} {b : Bytes} (h : Tenant.fromHex s = .ok b) :
    2 * b.length ≤ s.length := by
  rw [Tenant.fromHex] at h
  split at h
  · cases h
  · cases hs : Tenant.hexPairs 0 s with
    | error e =>
      rw [hs] at h
      cases h
    | ok b' =>
      rw [hs] at h
      obtain rfl := Except.ok.inj h
      exact length_of_hexPairs hs

/-! ## Base64 -/

/-- A text that is too short for hexadecimal digits is read as base64, with padding to spare. -/
lemma decodeMaster_of_short {s : PyStr} (h : s.length < 2 * masterSize) :
    decodeMaster s = urlsafeB64decode (s ++ text "==") := by
  have hhex : (Tenant.fromHex s).toOption.filter (fun b => b.length = masterSize) = none := by
    cases hs : Tenant.fromHex s with
    | error e => rfl
    | ok b =>
      have hlen := length_of_fromHex hs
      have hne : ¬ b.length = masterSize := by omega
      simp [Except.toOption, hne]
  rw [decodeMaster, hhex]
  cases hs : b64decodeStrict s with
  | none => rfl
  | some b => exact (urlsafeB64decode_of_strict hs).symm

/-- A text that the URL-safe alphabet turns into padded or unpadded base64. -/
lemma urlsafeB64decode_spelled {b : Bytes} {s t : PyStr} (hs : s.map ofUrlSafe = t)
    (ht : ∀ x ∈ t, x ∈ b64encode b) (hread : b64Loop .q0 0 (t ++ text "==") = some b) :
    urlsafeB64decode (s ++ text "==") = some b := by
  have hascii : (t ++ text "==").all isAscii := by
    rw [List.all_append, Bool.and_eq_true, List.all_eq_true]
    refine ⟨fun x hx => ?_, rfl⟩
    obtain ⟨c, rfl, hc, -⟩ := b64encode_ascii (ht x hx)
    exact decide_eq_true hc
  rw [urlsafeB64decode, List.map_append, hs]
  exact (b64decode_of_ascii hascii).trans hread

lemma visible_b64Char : ∀ v < 64, ∃ c : Char, b64Char v = .scalar c ∧ 32 < c.toNat ∧
    c.toNat < 128 := by
  intro v hv
  refine ⟨_, rfl, ?_⟩
  revert v
  decide +kernel

lemma visible_of_ofUrlSafe {b : Bytes} {x : PyChar} (h : ofUrlSafe x ∈ b64encode b) :
    Visible x := by
  by_cases hdash : x = .scalar '-'
  · exact ⟨'-', hdash, by decide, by decide⟩
  by_cases hunder : x = .scalar '_'
  · exact ⟨'_', hunder, by decide, by decide⟩
  rw [ofUrlSafe, if_neg hdash, if_neg hunder] at h
  rcases mem_b64encode h with rfl | ⟨v, hv, rfl⟩
  · exact ⟨'=', rfl, by decide, by decide⟩
  · exact visible_b64Char v hv

lemma solid_of_visible {s : PyStr} (hs : s ≠ []) (h : ∀ x ∈ s, Visible x) : Solid s := by
  constructor
  · obtain ⟨x, t, rfl⟩ := List.exists_cons_of_ne_nil hs
    exact ⟨x, t, rfl, (h x (by simp)).isSpace⟩
  · obtain ⟨t, x, rfl⟩ := List.eq_nil_or_concat s |>.resolve_left hs
    exact ⟨t, x, by simp, (h x (by simp)).isSpace⟩

/-- What holds of both ways to write base64. -/
lemma Spells.of_base64 {b : Bytes} {s t : PyStr} (hb : b.length = masterSize)
    (hs : s.map ofUrlSafe = t) (ht : t.Sublist (b64encode b)) (hne : t ≠ [])
    (hread : b64Loop .q0 0 (t ++ text "==") = some b) :
    Solid s ∧ decodeMaster s = some b := by
  have hlen : s.length ≤ 44 := by
    have hsub := ht.length_le
    rw [length_b64encode, hb, ← hs, List.length_map] at hsub
    exact hsub
  constructor
  · refine solid_of_visible (fun hnil => hne (by rw [← hs, hnil]; rfl)) fun x hx => ?_
    refine visible_of_ofUrlSafe (b := b) (ht.subset ?_)
    rw [← hs]
    exact List.mem_map_of_mem hx
  · have hshort : s.length < 2 * masterSize := by
      rw [masterSize]
      omega
    rw [decodeMaster_of_short hshort, urlsafeB64decode_spelled hs ht.subset hread]

lemma Spells.spec {b : Bytes} {s : PyStr} (hb : b.length = masterSize) (h : Spells b s) :
    Solid s ∧ decodeMaster s = some b := by
  obtain ⟨a, r, rfl⟩ : ∃ a r, b = a :: r := by
    cases b with
    | nil => cases hb
    | cons a r => exact ⟨a, r, rfl⟩
  cases h with
  | hex h =>
    have hkeep : (some (a :: r)).filter (fun b => b.length = masterSize) = some (a :: r) :=
      if_pos (decide_eq_true hb)
    refine ⟨h.solid, ?_⟩
    rw [decodeMaster, h.fromHex, Except.toOption, hkeep]
  | base64 h =>
    refine Spells.of_base64 hb h (List.Sublist.refl _) ?_ (b64Loop_append_pads (b64Loop_b64encode _))
    intro hnil
    have hlen := length_b64encode (a :: r)
    rw [hnil, hb] at hlen
    cases hlen
  | base64Unpadded h =>
    refine Spells.of_base64 hb h List.filter_sublist ?_ (b64Loop_unpadded _)
    intro hnil
    have hread := b64Loop_unpadded (a :: r)
    rw [hnil] at hread
    cases hread

/-- **However a secret is spelled in the environment, the adapter has that secret.** -/
theorem fromEnv_spelled {b : Bytes} (hb : b.length = masterSize) {s u v : PyStr} (hs : Spells b s)
    (hu : Blank u) (hv : Blank v) (envVar : PyStr) :
    LocalDevKMS.fromEnv envVar (some (u ++ s ++ v)) = .ok ⟨b, hb⟩ := by
  obtain ⟨hsolid, hread⟩ := hs.spec hb
  obtain ⟨x, t, rfl, -⟩ := hsolid.head
  have hstrip : strip (u ++ (x :: t) ++ v) = x :: t := by
    rw [List.append_assoc, strip_around hsolid, dropWhile_eq_nil_iff_blank.mpr hu,
      rdropWhile_eq_nil_iff_blank.mpr hv, List.nil_append, List.append_nil]
  have hsome : (some (u ++ (x :: t) ++ v)).filter (· ≠ []) = some (u ++ (x :: t) ++ v) := by
    simp [Option.filter]
  have hinit : LocalDevKMS.init b = .ok ⟨b, hb⟩ := by
    rw [LocalDevKMS.init, dif_neg (by omega)]
    simp [← hb]
  simp only [LocalDevKMS.fromEnv, hsome, hstrip, hread, hb, ne_eq, not_true_eq_false, if_false, hinit]
  rfl

/-- A secret whose text differs in the two alphabets. -/
def sampleMaster : Bytes := List.replicate masterSize 255

theorem fromEnv_sampleMaster :
    LocalDevKMS.fromEnv (text "OMKIT_LOCALDEV_MASTER")
      (some ([] ++ unpadded (urlsafeB64encode sampleMaster) ++ text "\n")) =
        .ok ⟨sampleMaster, rfl⟩ :=
  fromEnv_spelled rfl (.base64Unpadded (by decide +kernel)) (by decide) (by decide) _

end Omkit.Kms
