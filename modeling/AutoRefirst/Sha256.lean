import AutoRefirst.ByteText

/-!
# Digests

SHA-256 over 32-bit words, fed in pieces through a buffer of one block.
-/

namespace AutoRefirst
open List

namespace Sha256

def K : List UInt32 :=
  [0x428a2f98,0x71374491,0xb5c0fbcf,0xe9b5dba5,0x3956c25b,0x59f111f1,0x923f82a4,0xab1c5ed5,
   0xd807aa98,0x12835b01,0x243185be,0x550c7dc3,0x72be5d74,0x80deb1fe,0x9bdc06a7,0xc19bf174,
   0xe49b69c1,0xefbe4786,0x0fc19dc6,0x240ca1cc,0x2de92c6f,0x4a7484aa,0x5cb0a9dc,0x76f988da,
   0x983e5152,0xa831c66d,0xb00327c8,0xbf597fc7,0xc6e00bf3,0xd5a79147,0x06ca6351,0x14292967,
   0x27b70a85,0x2e1b2138,0x4d2c6dfc,0x53380d13,0x650a7354,0x766a0abb,0x81c2c92e,0x92722c85,
   0xa2bfe8a1,0xa81a664b,0xc24b8b70,0xc76c51a3,0xd192e819,0xd6990624,0xf40e3585,0x106aa070,
   0x19a4c116,0x1e376c08,0x2748774c,0x34b0bcb5,0x391c0cb3,0x4ed8aa4a,0x5b9cca4f,0x682e6ff3,
   0x748f82ee,0x78a5636f,0x84c87814,0x8cc70208,0x90befffa,0xa4506ceb,0xbef9a3f7,0xc67178f2]

def rr (x : UInt32) (n : UInt32) : UInt32 := (x >>> n) ||| (x <<< (32-n))

structure Words where
  (a b c d e f g h : UInt32)

end Sha256

structure Sha256 where
  h : Sha256.Words := ⟨0x6a09e667,0xbb67ae85,0x3c6ef372,0xa54ff53a,0x510e527f,0x9b05688c,
    0x1f83d9ab,0x5be0cd19⟩
  buf : Bytes := []
  bytes : UInt64 := 0

namespace Sha256

/-- The four bytes at `i * 4`, the highest first. -/
def word (p : Bytes) (i : ℕ) : UInt32 :=
  ((p.getD (i*4) 0).toUInt32 <<< 24) ||| ((p.getD (i*4+1) 0).toUInt32 <<< 16) |||
    ((p.getD (i*4+2) 0).toUInt32 <<< 8) ||| (p.getD (i*4+3) 0).toUInt32

/-- One more word of the schedule. -/
def extend (w : List UInt32) (i : ℕ) : List UInt32 :=
  let s0 := rr (w.getD (i-15) 0) 7 ^^^ rr (w.getD (i-15) 0) 18 ^^^ (w.getD (i-15) 0 >>> 3)
  let s1 := rr (w.getD (i-2) 0) 17 ^^^ rr (w.getD (i-2) 0) 19 ^^^ (w.getD (i-2) 0 >>> 10)
  w ++ [w.getD (i-16) 0+s0+w.getD (i-7) 0+s1]

def round (s : Words) (k w : UInt32) : Words :=
  let S1 := rr s.e 6 ^^^ rr s.e 11 ^^^ rr s.e 25
  let ch := (s.e &&& s.f) ^^^ (~~~s.e &&& s.g)
  let t1 := s.h+S1+ch+k+w
  let S0 := rr s.a 2 ^^^ rr s.a 13 ^^^ rr s.a 22
  let maj := (s.a &&& s.b) ^^^ (s.a &&& s.c) ^^^ (s.b &&& s.c)
  let t2 := S0+maj
  ⟨t1+t2,s.a,s.b,s.c,s.d+t1,s.e,s.f,s.g⟩

def block (s : Sha256) (p : Bytes) : Sha256 :=
  let w := (List.range' 16 48).foldl extend ((List.range 16).map (word p))
  let r := (K.zip w).foldl (fun r kw => round r kw.1 kw.2) s.h
  { s with h:=⟨s.h.a+r.a,s.h.b+r.b,s.h.c+r.c,s.h.d+r.d,s.h.e+r.e,s.h.f+r.f,
      s.h.g + r.g,s.h.h + r.h⟩ }

/-- The loop of `update`; a turn takes at least one byte. -/
def fill (s : Sha256) : ℕ → Bytes → Sha256
  | 0, _ => s
  | n+1, p =>
    if p.isEmpty then s else
      let take := min p.length (64-s.buf.length)
      let buf := s.buf ++ p.take take
      let s := if buf.length = 64 then {s.block buf with buf:=[]} else {s with buf}
      s.fill n (p.drop take)

def update (s : Sha256) (p : Bytes) : Sha256 :=
  fill {s with bytes:=s.bytes+p.length.toUInt64} p.length p

def hexDigit (n : ℕ) : Char := if n < 10 then Char.ofNat (48+n) else Char.ofNat (87+n)

def hexWord (x : UInt32) : List Char :=
  [28,24,20,16,12,8,4,0].map fun k => hexDigit ((x.toNat >>> k) % 16)

def finish (s : Sha256) : String :=
  let bits := s.bytes*8
  let buf := s.buf++[0x80]
  let s := if buf.length > 56
    then {s.block (buf++List.replicate (64-buf.length) 0) with buf:=[]}
    else {s with buf:=buf}
  let tail := ([56,48,40,32,24,16,8,0] : List UInt64).map fun k => (bits >>> k).toUInt8
  let s := s.block (s.buf++List.replicate (56-s.buf.length) 0++tail)
  String.ofList ([s.h.a,s.h.b,s.h.c,s.h.d,s.h.e,s.h.f,s.h.g,s.h.h].flatMap hexWord)

theorem hexWord_length (x:UInt32) : (hexWord x).length=8:=rfl

theorem finish_length (s:Sha256) : s.finish.length=64:=by
  rw [finish,String.length_ofList]
  simp only [flatMap_cons,flatMap_nil,length_append,hexWord_length, length_nil]

end Sha256

def sha256Bytes (data : Bytes) : String :=
  let s : Sha256 := {}
  (if data.isEmpty then s else s.update data).finish

theorem sha256Bytes_length (data:Bytes) : (sha256Bytes data).length=64:=Sha256.finish_length _

end AutoRefirst
