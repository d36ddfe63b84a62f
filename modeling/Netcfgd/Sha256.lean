import Netcfgd.Pages

/-!
# The one digest

`src/base/sha256.c` : SHA-256, written in hexadecimal. Nothing here is about how hard it is to
find two texts of one digest; what its readers rest on is its shape, sixty-four characters that
are no blanks (`length_sha256Hex`, `blank_of_mem_sha256Hex`).
-/

namespace Netcfgd.Sha256

open Netcfgd.Json (ascii asciis hexDigit)
open Netcfgd.Pages (Bytes hex)

/-- `K`. -/
def constants : List UInt32 :=
  [0x428a2f98, 0x71374491, 0xb5c0fbcf, 0xe9b5dba5, 0x3956c25b, 0x59f111f1, 0x923f82a4, 0xab1c5ed5,
    0xd807aa98, 0x12835b01, 0x243185be, 0x550c7dc3, 0x72be5d74, 0x80deb1fe, 0x9bdc06a7, 0xc19bf174,
    0xe49b69c1, 0xefbe4786, 0x0fc19dc6, 0x240ca1cc, 0x2de92c6f, 0x4a7484aa, 0x5cb0a9dc, 0x76f988da,
    0x983e5152, 0xa831c66d, 0xb00327c8, 0xbf597fc7, 0xc6e00bf3, 0xd5a79147, 0x06ca6351, 0x14292967,
    0x27b70a85, 0x2e1b2138, 0x4d2c6dfc, 0x53380d13, 0x650a7354, 0x766a0abb, 0x81c2c92e, 0x92722c85,
    0xa2bfe8a1, 0xa81a664b, 0xc24b8b70, 0xc76c51a3, 0xd192e819, 0xd6990624, 0xf40e3585, 0x106aa070,
    0x19a4c116, 0x1e376c08, 0x2748774c, 0x34b0bcb5, 0x391c0cb3, 0x4ed8aa4a, 0x5b9cca4f, 0x682e6ff3,
    0x748f82ee, 0x78a5636f, 0x84c87814, 0x8cc70208, 0x90befffa, 0xa4506ceb, 0xbef9a3f7, 0xc67178f2]

structure Words where
  a : UInt32
  b : UInt32
  c : UInt32
  d : UInt32
  e : UInt32
  f : UInt32
  g : UInt32
  h : UInt32
  deriving DecidableEq

def start : Words :=
  ⟨0x6a09e667, 0xbb67ae85, 0x3c6ef372, 0xa54ff53a, 0x510e527f, 0x9b05688c, 0x1f83d9ab, 0x5be0cd19⟩

/-- `rotate_right`. -/
def rotateRight (value bits : UInt32) : UInt32 := (value >>> bits) ||| (value <<< (32 - bits))

def word (octets : Bytes) : UInt32 :=
  (octets.take 4).foldl (fun w octet => (w <<< 8) ||| octet.toUInt32) 0

def nextWord (w : List UInt32) : UInt32 :=
  let at_ (back : ℕ) := w.getD (w.length - back) 0
  let s0 := rotateRight (at_ 15) 7 ^^^ rotateRight (at_ 15) 18 ^^^ (at_ 15 >>> 3)
  let s1 := rotateRight (at_ 2) 17 ^^^ rotateRight (at_ 2) 19 ^^^ (at_ 2 >>> 10)
  at_ 16 + s0 + at_ 7 + s1

/-- The schedule of a block : its sixteen words, and the forty-eight made of them. -/
def schedule (block : Bytes) : List UInt32 :=
  (List.range 48).foldl (fun w _ => w ++ [nextWord w])
    ((List.range 16).map fun i => word (block.drop (4 * i)))

def round (s : Words) (k : UInt32 × UInt32) : Words :=
  let s1 := rotateRight s.e 6 ^^^ rotateRight s.e 11 ^^^ rotateRight s.e 25
  let choose := (s.e &&& s.f) ^^^ (~~~s.e &&& s.g)
  let temp1 := s.h + s1 + choose + k.1 + k.2
  let s0 := rotateRight s.a 2 ^^^ rotateRight s.a 13 ^^^ rotateRight s.a 22
  let majority := (s.a &&& s.b) ^^^ (s.a &&& s.c) ^^^ (s.b &&& s.c)
  ⟨temp1 + (s0 + majority), s.a, s.b, s.c, s.d + temp1, s.e, s.f, s.g⟩

/-- `compress`. -/
def compress (s : Words) (block : Bytes) : Words :=
  let t := (constants.zip (schedule block)).foldl round s
  ⟨s.a + t.a, s.b + t.b, s.c + t.c, s.d + t.d, s.e + t.e, s.f + t.f, s.g + t.g, s.h + t.h⟩

/-- The last octets with their padding and the length of the whole in bits. -/
def tail (rest : Bytes) (length : ℕ) : Bytes :=
  let size := if rest.length < 56 then 64 else 128
  rest ++ 0x80 :: List.replicate (size - 9 - rest.length) 0 ++
    (List.range 8).map fun i => UInt8.ofNat (length * 8 / 256 ^ (7 - i))

def blocks (bytes : Bytes) : List Bytes :=
  let whole := bytes.length / 64
  let padded := bytes.take (64 * whole) ++ tail (bytes.drop (64 * whole)) bytes.length
  (List.range (padded.length / 64)).map fun i => (padded.drop (64 * i)).take 64

def Words.hexadecimal (s : Words) : Bytes :=
  [s.a, s.b, s.c, s.d, s.e, s.f, s.g, s.h].flatMap fun w => hex 8 w.toNat

/-- `ncfg_sha256_hex`. -/
def sha256Hex (bytes : Bytes) : Bytes := ((blocks bytes).foldl compress start).hexadecimal

/-! ## Its shape -/

@[simp] theorem length_hex : ∀ (places n : ℕ), (hex places n).length = places
  | 0, _ => rfl
  | places + 1, n => by
    rw [hex, List.length_append, length_hex places, List.length_singleton]

theorem blank_lt_hexDigit {n : ℕ} (h : n < 16) : ascii ' ' < hexDigit n := by
  interval_cases n <;> decide

theorem blank_of_mem_hex : ∀ (places n : ℕ), ∀ c ∈ hex places n, ascii ' ' < c
  | 0, _ => fun _ hc => (List.not_mem_nil hc).elim
  | places + 1, n => by
    intro c hc
    rw [hex, List.mem_append, List.mem_singleton] at hc
    rcases hc with hc | rfl
    · exact blank_of_mem_hex places (n / 16) c hc
    · exact blank_lt_hexDigit (Nat.mod_lt _ (by decide))

@[simp] theorem length_sha256Hex (bytes : Bytes) : (sha256Hex bytes).length = 64 := by
  simp [sha256Hex, Words.hexadecimal]

theorem blank_of_mem_sha256Hex (bytes : Bytes) : ∀ c ∈ sha256Hex bytes, ascii ' ' < c := by
  intro c hc
  obtain ⟨w, -, hw⟩ := List.mem_flatMap.1 hc
  exact blank_of_mem_hex 8 w.toNat c hw

example : sha256Hex (asciis "abc") =
    asciis "ba7816bf8f01cfea414140de5dae2223b00361a396177a9cb410ff61f20015ad" := by
  decide +kernel

end Netcfgd.Sha256
