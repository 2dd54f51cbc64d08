import Adlc.Framework.Text

namespace Adlc.Framework

def rotr (n : UInt32) (x : UInt32) : UInt32 := (x >>> n) ||| (x <<< (32 - n))

def roundConstants : List UInt32 :=
  [0x428a2f98, 0x71374491, 0xb5c0fbcf, 0xe9b5dba5, 0x3956c25b, 0x59f111f1, 0x923f82a4, 0xab1c5ed5,
   0xd807aa98, 0x12835b01, 0x243185be, 0x550c7dc3, 0x72be5d74, 0x80deb1fe, 0x9bdc06a7, 0xc19bf174,
   0xe49b69c1, 0xefbe4786, 0x0fc19dc6, 0x240ca1cc, 0x2de92c6f, 0x4a7484aa, 0x5cb0a9dc, 0x76f988da,
   0x983e5152, 0xa831c66d, 0xb00327c8, 0xbf597fc7, 0xc6e00bf3, 0xd5a79147, 0x06ca6351, 0x14292967,
   0x27b70a85, 0x2e1b2138, 0x4d2c6dfc, 0x53380d13, 0x650a7354, 0x766a0abb, 0x81c2c92e, 0x92722c85,
   0xa2bfe8a1, 0xa81a664b, 0xc24b8b70, 0xc76c51a3, 0xd192e819, 0xd6990624, 0xf40e3585, 0x106aa070,
   0x19a4c116, 0x1e376c08, 0x2748774c, 0x34b0bcb5, 0x391c0cb3, 0x4ed8aa4a, 0x5b9cca4f, 0x682e6ff3,
   0x748f82ee, 0x78a5636f, 0x84c87814, 0x8cc70208, 0x90befffa, 0xa4506ceb, 0xbef9a3f7, 0xc67178f2]

/-- The eight working words. -/
structure ShaState where
  a : UInt32
  b : UInt32
  c : UInt32
  d : UInt32
  e : UInt32
  f : UInt32
  g : UInt32
  h : UInt32

def ShaState.init : ShaState :=
  ⟨0x6a09e667, 0xbb67ae85, 0x3c6ef372, 0xa54ff53a, 0x510e527f, 0x9b05688c, 0x1f83d9ab, 0x5be0cd19⟩

def ShaState.add (s t : ShaState) : ShaState :=
  ⟨s.a + t.a, s.b + t.b, s.c + t.c, s.d + t.d, s.e + t.e, s.f + t.f, s.g + t.g, s.h + t.h⟩

def ShaState.round (s : ShaState) (k w : UInt32) : ShaState :=
  let s1 := rotr 6 s.e ^^^ rotr 11 s.e ^^^ rotr 25 s.e
  let ch := (s.e &&& s.f) ^^^ ((~~~ s.e) &&& s.g)
  let t1 := s.h + s1 + ch + k + w
  let s0 := rotr 2 s.a ^^^ rotr 13 s.a ^^^ rotr 22 s.a
  let maj := (s.a &&& s.b) ^^^ (s.a &&& s.c) ^^^ (s.b &&& s.c)
  ⟨t1 + (s0 + maj), s.a, s.b, s.c, s.d + t1, s.e, s.f, s.g⟩

/-- The message schedule, as a window of sixteen words that slides by one each round. -/
def ShaState.rounds : List UInt32 → List UInt32 → ShaState → ShaState
  | k :: ks, w :: ws, s =>
    let x1 := ws.getD 0 0
    let x14 := ws.getD 13 0
    let next := w + (rotr 7 x1 ^^^ rotr 18 x1 ^^^ (x1 >>> 3)) + ws.getD 8 0 +
      (rotr 17 x14 ^^^ rotr 19 x14 ^^^ (x14 >>> 10))
    ShaState.rounds ks (ws ++ [next]) (s.round k w)
  | _, _, s => s

def beWords : Bytes → List UInt32
  | a :: b :: c :: d :: r =>
    UInt32.ofNat (((a.toNat * 256 + b.toNat) * 256 + c.toNat) * 256 + d.toNat) :: beWords r
  | _ => []

def beBytes (width n : Nat) : Bytes :=
  (List.range width).map fun i => byte (n / 256 ^ (width - 1 - i) % 256)

/-- The padded message: a one bit, zeros to 56 modulo 64, and the length in bits. -/
def shaPad (m : Bytes) : Bytes :=
  m ++ [0x80] ++ List.replicate ((119 - m.length % 64) % 64) 0 ++ beBytes 8 (8 * m.length)

def ShaState.blocks : Nat → List UInt32 → ShaState → ShaState
  | 0, _, s => s
  | n + 1, ws, s => ShaState.blocks n (ws.drop 16) (s.add (ShaState.rounds roundConstants (ws.take 16) s))

def sha256Raw (m : Bytes) : Bytes :=
  let p := shaPad m
  let s := ShaState.blocks (p.length / 64) (beWords p) .init
  [s.a, s.b, s.c, s.d, s.e, s.f, s.g, s.h].flatMap fun w => beBytes 4 w.toNat

def toHex (b : Bytes) : JsString := b.flatMap fun x => [hexDigit (x.toNat / 16), hexDigit (x.toNat % 16)]

/-- `createHash('sha256').update(bytes).digest('hex')`. -/
def sha256Hex (m : Bytes) : JsString := toHex (sha256Raw m)

def hmacBlock (key : Bytes) : Bytes :=
  let k := if 64 < key.length then sha256Raw key else key
  k ++ List.replicate (64 - k.length) 0

/-- `createHmac('sha256', key).update(m).digest('hex')`. -/
def hmacSha256Hex (key m : Bytes) : JsString :=
  let k := hmacBlock key
  toHex (sha256Raw (k.map (· ^^^ 0x5c) ++ sha256Raw (k.map (· ^^^ 0x36) ++ m)))

def isHexUnit (c : UInt16) : Bool :=
  (48 ≤ c.toNat && c.toNat ≤ 57) || (97 ≤ c.toNat && c.toNat ≤ 102)

theorem isHexUnit_hexDigit {n : Nat} (h : n < 16) : isHexUnit (hexDigit n) = true := by
  interval_cases n <;> decide

theorem toHex_spec (b : Bytes) :
    (toHex b).length = 2 * b.length ∧ ∀ c ∈ toHex b, isHexUnit c = true := by
  induction b with
  | nil => simp [toHex]
  | cons x b ih =>
    have hx := x.toNat_lt
    have h1 : isHexUnit (hexDigit (x.toNat / 16)) = true := isHexUnit_hexDigit (by omega)
    have h2 : isHexUnit (hexDigit (x.toNat % 16)) = true := isHexUnit_hexDigit (by omega)
    simp only [toHex, List.flatMap_cons, List.length_append, List.length_cons, List.length_nil,
      List.mem_append, List.mem_cons, List.not_mem_nil, or_false] at ih ⊢
    refine ⟨by omega, ?_⟩
    rintro c ((rfl | rfl) | hc)
    · exact h1
    · exact h2
    · exact ih.2 c hc

theorem sha256Raw_length (m : Bytes) : (sha256Raw m).length = 32 := by
  simp [sha256Raw, beBytes]

/-- A digest is 64 lowercase hexadecimal digits. -/
theorem sha256Hex_spec (m : Bytes) :
    (sha256Hex m).length = 64 ∧ ∀ c ∈ sha256Hex m, isHexUnit c = true := by
  have h := toHex_spec (sha256Raw m)
  rw [sha256Raw_length] at h
  exact h

theorem hmacSha256Hex_ne_nil (key m : Bytes) : hmacSha256Hex key m ≠ [] := by
  intro h
  have hl := (toHex_spec (sha256Raw ((hmacBlock key).map (· ^^^ 0x5c) ++
    sha256Raw ((hmacBlock key).map (· ^^^ 0x36) ++ m)))).1
  rw [hmacSha256Hex] at h
  rw [h, sha256Raw_length] at hl
  cases hl

attribute [irreducible] sha256Hex hmacSha256Hex

end Adlc.Framework
