import Omkit.Lib.Json.Value
import Mathlib.Tactic

/-!
# SHA-256

The digest, on words of 32 bits as natural numbers.
-/

namespace Omkit.Lib.Sha256

/-- The sum of words. -/
def add (a b : ℕ) : ℕ := (a + b) % 2 ^ 32

/-- A word rotated to the right. -/
def rotr (n x : ℕ) : ℕ := (x >>> n ||| x <<< (32 - n)) % 2 ^ 32

/-- The complement of a word. -/
def compl (x : ℕ) : ℕ := x ^^^ 0xffffffff

/-- The constants of the rounds. -/
def roundConstants : List ℕ :=
  [0x428a2f98, 0x71374491, 0xb5c0fbcf, 0xe9b5dba5, 0x3956c25b, 0x59f111f1, 0x923f82a4, 0xab1c5ed5,
    0xd807aa98, 0x12835b01, 0x243185be, 0x550c7dc3, 0x72be5d74, 0x80deb1fe, 0x9bdc06a7, 0xc19bf174,
    0xe49b69c1, 0xefbe4786, 0x0fc19dc6, 0x240ca1cc, 0x2de92c6f, 0x4a7484aa, 0x5cb0a9dc, 0x76f988da,
    0x983e5152, 0xa831c66d, 0xb00327c8, 0xbf597fc7, 0xc6e00bf3, 0xd5a79147, 0x06ca6351, 0x14292967,
    0x27b70a85, 0x2e1b2138, 0x4d2c6dfc, 0x53380d13, 0x650a7354, 0x766a0abb, 0x81c2c92e, 0x92722c85,
    0xa2bfe8a1, 0xa81a664b, 0xc24b8b70, 0xc76c51a3, 0xd192e819, 0xd6990624, 0xf40e3585, 0x106aa070,
    0x19a4c116, 0x1e376c08, 0x2748774c, 0x34b0bcb5, 0x391c0cb3, 0x4ed8aa4a, 0x5b9cca4f, 0x682e6ff3,
    0x748f82ee, 0x78a5636f, 0x84c87814, 0x8cc70208, 0x90befffa, 0xa4506ceb, 0xbef9a3f7, 0xc67178f2]

/-- The state before the first block. -/
def initial : List ℕ :=
  [0x6a09e667, 0xbb67ae85, 0x3c6ef372, 0xa54ff53a, 0x510e527f, 0x9b05688c, 0x1f83d9ab, 0x5be0cd19]

/-- The message with its padding: a one bit, zeros, and its length in bits on eight bytes. -/
def pad (b : Bytes) : List ℕ :=
  let zeros := (119 - b.length % 64) % 64
  b.map UInt8.toNat ++ 0x80 :: List.replicate zeros 0 ++
    (List.range 8).map fun i => (b.length * 8) >>> (8 * (7 - i)) % 256

/-- The words of a list of bytes. -/
def words : List ℕ → List ℕ
  | a :: b :: c :: d :: r => (((a * 256 + b) * 256 + c) * 256 + d) :: words r
  | _ => []

/-- Extend the last sixteen words of a message schedule, newest first, by `n` more. -/
def schedule : ℕ → List ℕ → List ℕ
  | 0, w => w
  | n + 1, w =>
    let x := w.getD 14 0
    let y := w.getD 1 0
    let s₀ := rotr 7 x ^^^ rotr 18 x ^^^ x >>> 3
    let s₁ := rotr 17 y ^^^ rotr 19 y ^^^ y >>> 10
    schedule n (add (add (w.getD 15 0) s₀) (add (w.getD 6 0) s₁) :: w)

/-- The rounds over the words and constants of a block. -/
def rounds : List (ℕ × ℕ) → List ℕ → List ℕ
  | (k, w) :: r, [a, b, c, d, e, f, g, h] =>
    let s₁ := rotr 6 e ^^^ rotr 11 e ^^^ rotr 25 e
    let ch := (e &&& f) ^^^ (compl e &&& g)
    let t₁ := add (add (add h s₁) (add ch k)) w
    let s₀ := rotr 2 a ^^^ rotr 13 a ^^^ rotr 22 a
    let maj := (a &&& b) ^^^ (a &&& c) ^^^ (b &&& c)
    rounds r [add t₁ (add s₀ maj), a, b, c, add d t₁, e, f, g]
  | _, s => s

/-- The state after the words of some blocks; `n` bounds their number. -/
def blocks : ℕ → List ℕ → List ℕ → List ℕ
  | 0, _, s => s
  | n + 1, ws, s =>
    if ws = [] then s
    else
      let w := (schedule 48 (ws.take 16).reverse).reverse
      blocks n (ws.drop 16) (List.zipWith add s (rounds (roundConstants.zip w) s))

/-- The bytes of a word. -/
def bytesOf (x : ℕ) : Bytes :=
  [UInt8.ofNat (x / 2 ^ 24), UInt8.ofNat (x / 2 ^ 16), UInt8.ofNat (x / 2 ^ 8), UInt8.ofNat x]

/-- `hashlib.sha256(b).digest()`. -/
def digest (b : Bytes) : Bytes :=
  let ws := words (pad b)
  (blocks ws.length ws initial).flatMap bytesOf

/-- `hashlib.sha256(b).hexdigest()`. -/
def hexdigest (b : Bytes) : PyStr :=
  (digest b).flatMap fun x => [hexDigit (x.toNat / 16), hexDigit (x.toNat % 16)]

example : hexdigest [0x61, 0x62, 0x63] =
    text "ba7816bf8f01cfea414140de5dae2223b00361a396177a9cb410ff61f20015ad" := by
  decide +kernel

/-! ## The length of a digest -/

lemma rounds_length (r : List (ℕ × ℕ)) (s : List ℕ) : (rounds r s).length = s.length := by
  fun_induction rounds r s with
  | case1 k w r a b c d e f g h s₁ ch t₁ s₀ maj ih => exact ih
  | case2 => rfl

lemma blocks_length (n : ℕ) (ws s : List ℕ) : (blocks n ws s).length = s.length := by
  induction n generalizing ws s with
  | zero => rfl
  | succ n ih =>
    rw [blocks]
    split
    · rfl
    · rw [ih, List.length_zipWith, rounds_length, Nat.min_self]

lemma length_flatMap_bytesOf (l : List ℕ) : (l.flatMap bytesOf).length = 4 * l.length := by
  induction l with
  | nil => rfl
  | cons x l ih =>
    rw [List.flatMap_cons, List.length_append, ih, List.length_cons]
    simp only [bytesOf, List.length_cons, List.length_nil]
    omega

theorem digest_length (b : Bytes) : (digest b).length = 32 := by
  rw [digest, length_flatMap_bytesOf, blocks_length]
  rfl

/-! ## HMAC -/

/-- The key of HMAC, filled up to a block of the digest. -/
def hmacKey (key : Bytes) : Bytes :=
  let k := if key.length ≤ 64 then key else digest key
  k ++ List.replicate (64 - k.length) 0

/-- `hmac.new(key, msg, hashlib.sha256).digest()`. -/
def hmac (key msg : Bytes) : Bytes :=
  let k := hmacKey key
  digest (k.map (· ^^^ 0x5c) ++ digest (k.map (· ^^^ 0x36) ++ msg))

lemma hmac_length (key msg : Bytes) : (hmac key msg).length = 32 := digest_length _

end Omkit.Lib.Sha256
