import AutoRefirst.BlockFeeding
import AutoRefirst.Sha256

/-!
# Digests of what comes in parts

The files, byte ranges and chunks that are fed to a digest have the digest of their bytes in a row,
which is that of the padded message, block by block.
-/

namespace AutoRefirst.Sha256
open List BlockFeeding

/-- `block` on the words alone. -/
def compress (h : Words) (p : Bytes) : Words := (block {h} p).h

def start : Words := ({} : Sha256).h

/-- The number of bits modulo `2 ^ 64`, the highest byte first. -/
def lengthBytes (bytes : UInt64) : Bytes :=
  ([56,48,40,32,24,16,8,0] : List UInt64).map fun k => ((bytes*8) >>> k).toUInt8

/-- What is put behind a message whose last block has `r` bytes. -/
def padding (r : ℕ) (bytes : UInt64) : Bytes :=
  0x80::replicate ((119-r)%64) 0++lengthBytes bytes

def padded (m : Bytes) : Bytes := m++padding (m.length%64) m.length.toUInt64

def hexWords (h : Words) : String :=
  String.ofList ([h.a,h.b,h.c,h.d,h.e,h.f,h.g,h.h].flatMap hexWord)

/-- The digest of a whole message. -/
def digest (m : Bytes) : String := hexWords (blocks compress 64 start (padded m))

/-- The state after more bytes. -/
def absorbed (s : Sha256) (p : Bytes) : Sha256 :=
  let r := feed compress 64 (s.h,s.buf) p
  ⟨r.1,r.2,s.bytes+p.length.toUInt64⟩

variable {s : Sha256}

theorem block_eq (s:Sha256) (p:Bytes) : s.block p = {s with h:=compress s.h p}:=rfl

theorem fill_nil (s:Sha256) (n:ℕ) : s.fill n [] = s:=by cases n <;> rfl

theorem fill_eq (hs:s.buf.length<64) {n:ℕ} {p:Bytes} (hp:p.length≤n) :
    s.fill n p = {s.absorbed p with bytes:=s.bytes}:=by
  induction n generalizing s p with
  | zero=>
    rw [length_eq_zero_iff.mp (Nat.le_zero.mp hp)]
    rfl
  | succ n ih=>
    cases hnil : p.isEmpty with
    | true=>
      rw [isEmpty_iff.mp hnil]
      rfl
    | false=>
      have hpos : 0<p.length:=length_pos_iff.mpr (by simpa using hnil)
      rw [fill,if_neg (by simp [hnil])]
      by_cases hroom : s.buf.length+p.length<64
      · have htake : min p.length (64-s.buf.length) = p.length:=by omega
        have hne : s.buf.length+p.length≠64:=by omega
        simp only [htake,take_length,drop_length,length_append,if_neg hne,fill_nil,absorbed,
          feed_short hroom]
      · have htake : min p.length (64-s.buf.length)=64-s.buf.length:=by omega
        have hlen : (p.take (64-s.buf.length)).length=64-s.buf.length:=length_take_of_le (by omega)
        have hfull : feed compress 64 (s.h,s.buf) (p.take (64-s.buf.length)) =
            (compress s.h (s.buf++p.take (64-s.buf.length)),[]):=
          feed_full (by omega) (ne_nil_of_length_pos (by omega))
        have hrest:=ih (s:=⟨compress s.h (s.buf++p.take (64-s.buf.length)),[],s.bytes⟩)
          (p:=p.drop (64-s.buf.length)) (Nat.succ_pos 63) (by rw [length_drop];omega)
        simp only [htake,length_append,hlen,show s.buf.length+(64-s.buf.length)=64 by omega,
          if_true,block_eq]
        rw [hrest]
        simp only [absorbed]
        conv_rhs=>rw [← take_append_drop (64-s.buf.length) p,feed_append,hfull]

theorem update_eq (hs:s.buf.length<64) (p:Bytes) : s.update p = s.absorbed p:=by
  rw [update,fill_eq (by exact hs) le_rfl]
  rfl

theorem absorbed_nil (s:Sha256) : s.absorbed [] = s:=by simp [absorbed,feed]

theorem absorbed_append (p q:Bytes) : s.absorbed (p++q) = (s.absorbed p).absorbed q:=by
  simp only [absorbed,feed_append,length_append,Nat.toUInt64,UInt64.ofNat_add,UInt64.add_assoc]

theorem absorbed_buf (hs:s.buf.length<64) (p:Bytes) : (s.absorbed p).buf.length<64:=feed_buffer hs p

/-- The last block of a message whose last bytes and mark are in the buffer. -/
theorem finish_block (s:Sha256) : s.finish =
    let buf:=s.buf++[0x80]
    let s':=if buf.length>56
      then (compress s.h (buf++replicate (64-buf.length) 0),[]) else (s.h,buf)
    hexWords (compress s'.1 (s'.2++replicate (56-s'.2.length) 0++lengthBytes s.bytes)):=by
  unfold finish
  dsimp only
  split <;> rfl

/-- `finish` feeds the padding. -/
theorem finish_eq (hs:s.buf.length<64) :
    s.finish = hexWords (feed compress 64 (s.h,s.buf) (padding s.buf.length s.bytes)).1:=by
  have hlen : (lengthBytes s.bytes).length=8:=rfl
  rw [finish_block]
  dsimp only
  by_cases hlong : 56 ≤ s.buf.length
  · have hpad : padding s.buf.length s.bytes = (0x80::replicate (63-s.buf.length) 0)++
        (replicate 56 0++lengthBytes s.bytes):=by
      rw [padding,show (119-s.buf.length)%64=63-s.buf.length+56 by omega,replicate_add]
      simp
    have hfirst : feed compress 64 (s.h,s.buf) (0x80::replicate (63-s.buf.length) 0) =
        (compress s.h (s.buf++0x80::replicate (63-s.buf.length) 0),[]):=
      feed_full (by simp;omega) (cons_ne_nil _ _)
    have hsecond : ∀h,feed compress 64 (h,[]) (replicate 56 0++lengthBytes s.bytes) =
        (compress h (replicate 56 0++lengthBytes s.bytes),[]):=
      fun h=>feed_full (by simp [hlen]) (by simp)
    rw [hpad,feed_append,hfirst,hsecond,if_pos (by simp;omega)]
    simp
  · have hpad : padding s.buf.length s.bytes =
        0x80::(replicate (55-s.buf.length) 0++lengthBytes s.bytes):=by
      rw [padding,show (119-s.buf.length)%64=55-s.buf.length by omega,cons_append]
    have hfirst : feed compress 64 (s.h,s.buf)
        (0x80::(replicate (55-s.buf.length) 0++lengthBytes s.bytes)) =
        (compress s.h (s.buf++0x80::(replicate (55-s.buf.length) 0++lengthBytes s.bytes)),[]):=
      feed_full (by simp [hlen];omega) (cons_ne_nil _ _)
    rw [hpad,hfirst,if_neg (by simp;omega)]
    simp

theorem finish_absorbed (m:Bytes) : (absorbed {} m).finish = digest m:=by
  have hfeed : feed compress 64 (start,[]) m=(blocks compress 64 start m,m.drop (64*(m.length/64))):=
    feed_eq_blocks (by decide) start m
  have hbuf : (absorbed {} m).buf=m.drop (64*(m.length/64)):=congrArg Prod.snd hfeed
  have hlen : (absorbed {} m).buf.length=m.length%64:=by
    rw [hbuf,length_drop]
    omega
  have hbytes : (absorbed {} m).bytes=m.length.toUInt64:=UInt64.zero_add _
  rw [finish_eq (by omega),hlen,hbytes,digest,padded]
  have hpadded : feed compress 64 (start,[]) (m++padding (m.length%64) m.length.toUInt64) =
      feed compress 64 ((absorbed {} m).h,(absorbed {} m).buf)
        (padding (m.length%64) m.length.toUInt64):=feed_append ..
  rw [← hpadded,feed_eq_blocks (by decide)]

end AutoRefirst.Sha256

namespace AutoRefirst
open List

def sha256Parts (parts : List Bytes) : String :=
  (parts.foldl (fun s p => if p.isEmpty then s else s.update p) ({} : Sha256)).finish

/-- The bytes that `sha256_file` reads at once. -/
def fileBuffer : ℕ := 1 <<< 16

/-- The loop of `sha256_file`; the last read finds less than it asks for. -/
def readAll : ℕ → Sha256 → Bytes → Sha256
  | 0, s, _ => s
  | fuel+1, s, rest =>
    let b := rest.take fileBuffer
    let s := if b.isEmpty then s else s.update b
    if b.length < fileBuffer then s else readAll fuel s (rest.drop fileBuffer)

/-- `content` is what the file holds, if it can be opened. -/
def sha256File (content : Option Bytes) : String :=
  match content with
  | none => ""
  | some data => (readAll (data.length/fileBuffer+1) {} data).finish

theorem foldl_update {s:Sha256} (hs:s.buf.length<64) (parts:List Bytes) :
    parts.foldl (fun s p=>if p.isEmpty then s else s.update p) s = s.absorbed parts.flatten:=by
  induction parts generalizing s with
  | nil=>exact (Sha256.absorbed_nil s).symm
  | cons p parts ih=>
    rw [foldl_cons,flatten_cons,Sha256.absorbed_append,← ih (Sha256.absorbed_buf hs p)]
    congr 1
    split
    case isTrue hp=>rw [isEmpty_iff.mp hp,Sha256.absorbed_nil]
    case isFalse=>exact Sha256.update_eq hs p

theorem readAll_eq {s:Sha256} (hs:s.buf.length<64) {fuel:ℕ} {data:Bytes}
    (hfuel:data.length<fuel*fileBuffer) : readAll fuel s data = s.absorbed data:=by
  induction fuel generalizing s data with
  | zero=>omega
  | succ fuel ih=>
    rw [Nat.succ_mul] at hfuel
    have hpart : (if (data.take fileBuffer).isEmpty then s else s.update (data.take fileBuffer)) =
        s.absorbed (data.take fileBuffer):=by
      split
      case isTrue hp=>rw [isEmpty_iff.mp hp,Sha256.absorbed_nil]
      case isFalse=>exact Sha256.update_eq hs _
    rw [readAll,hpart,length_take]
    split
    case isTrue hlt=>rw [take_of_length_le (by omega)]
    case isFalse hge=>
      rw [ih (Sha256.absorbed_buf hs _) (by rw [length_drop];omega),← Sha256.absorbed_append,
        take_append_drop]

/-- Whatever parts a message comes in, whole, in ranges or from a file, its digest is that of the
padded message, block by block. -/
theorem sha256_of_message (m : Bytes) : sha256Bytes m = Sha256.digest m ∧
    sha256File (some m) = Sha256.digest m ∧
    ∀ parts : List Bytes, parts.flatten = m → sha256Parts parts = Sha256.digest m := by
  have hparts : ∀parts : List Bytes,parts.flatten=m → sha256Parts parts = Sha256.digest m:=by
    intro parts hm
    rw [sha256Parts,foldl_update (by decide),hm,Sha256.finish_absorbed]
  refine ⟨?_,?_,hparts⟩
  · simpa [sha256Parts,sha256Bytes] using hparts [m] (by simp)
  · rw [← Sha256.finish_absorbed,sha256File,readAll_eq (by decide)]
    exact Nat.mul_comm .. ▸ Nat.lt_mul_div_succ m.length (by decide)

end AutoRefirst
