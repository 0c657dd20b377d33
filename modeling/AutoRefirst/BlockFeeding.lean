import Mathlib.Data.List.Induction
import Mathlib.Tactic.Common

/-!
# A function of blocks, fed item by item

Items are collected in a buffer until they make a block. However the items come, the state is that
of the whole blocks in their order, and the buffer has the rest.
-/

namespace BlockFeeding
open List

variable {α σ : Type} (compress : σ → List α → σ) (n : ℕ)

/-- One item into the buffer. -/
def push (s : σ×List α) (a : α) : σ×List α :=
  if s.2.length+1 = n then (compress s.1 (s.2++[a]),[]) else (s.1,s.2++[a])

def feed (s : σ×List α) (l : List α) : σ×List α := l.foldl (push compress n) s

/-- The whole blocks of a list, one after another. -/
def blocks (h : σ) (l : List α) : σ :=
  (range (l.length/n)).foldl (fun h i => compress h ((l.drop (n*i)).take n)) h

variable {compress n}

theorem feed_append (s:σ×List α) (l m:List α) :
    feed compress n s (l++m) = feed compress n (feed compress n s l) m:=by
  simp only [feed,foldl_append]

theorem feed_buffer {s:σ×List α} (hs:s.2.length<n) (l:List α) :
    (feed compress n s l).2.length < n:=by
  induction l generalizing s with
  | nil=>exact hs
  | cons a l ih=>
    refine ih ?_
    unfold push
    split
    · exact Nat.zero_lt_of_lt hs
    · rw [length_append,length_singleton]
      omega

/-- Items that do not fill the buffer are kept in it. -/
theorem feed_short {h:σ} {buf l:List α} (hl:buf.length+l.length<n) :
    feed compress n (h,buf) l=(h,buf++l):=by
  induction l generalizing buf with
  | nil=>simp [feed]
  | cons a l ih=>
    rw [length_cons] at hl
    have hpush : push compress n (h,buf) a=(h,buf++[a]):=if_neg (by dsimp only;omega)
    rw [feed,foldl_cons,hpush,← feed,ih (by rw [length_append,length_singleton];omega),
      append_assoc,singleton_append]

/-- Items that just fill the buffer are a block with what it has. -/
theorem feed_full {h:σ} {buf l:List α} (hl:buf.length+l.length=n) (hne:l≠[]) :
    feed compress n (h,buf) l=(compress h (buf++l),[]):=by
  induction l using reverseRecOn with
  | nil=>exact absurd rfl hne
  | append_singleton l a=>
    rw [length_append,length_singleton] at hl
    have hpush : push compress n (h,buf++l) a=(compress h (buf++l++[a]),[]):=
      if_pos (by rw [length_append];omega)
    have hshort : feed compress n (h,buf) l=(h,buf++l):=feed_short (by omega)
    rw [feed_append,hshort,← append_assoc]
    simpa only [feed,foldl_cons,foldl_nil] using hpush

theorem blocks_short {h:σ} {l:List α} (hl:l.length<n) : blocks compress n h l = h:=by
  rw [blocks,Nat.div_eq_of_lt hl,range_zero,foldl_nil]

theorem blocks_next (hn:0<n) {h:σ} {l:List α} (hl:n≤l.length) :
    blocks compress n h l = blocks compress n (compress h (l.take n)) (l.drop n):=by
  have hcount : l.length/n=(l.drop n).length/n+1:=by
    rw [length_drop,← Nat.add_div_right _ hn,Nat.sub_add_cancel hl]
  rw [blocks,blocks,hcount,range_succ_eq_map,foldl_cons,foldl_map,Nat.mul_zero,drop_zero]
  simp only [Nat.mul_succ,drop_drop,Nat.add_comm]

theorem feed_eq_blocks (hn:0<n) (h:σ) (l:List α) :
    feed compress n (h,[]) l=(blocks compress n h l,l.drop (n*(l.length/n))):=by
  induction hlen : l.length using Nat.strongRecOn generalizing h l with | _ k ih=>
  subst hlen
  by_cases hl : l.length<n
  · rw [feed_short (by simpa using hl),blocks_short hl,Nat.div_eq_of_lt hl]
    simp
  · have hle : n≤l.length:=Nat.le_of_not_lt hl
    have htake : (l.take n).length=n:=length_take_of_le hle
    have hfirst : feed compress n (h,[]) (l.take n)=(compress h (l.take n),[]):=
      feed_full (by simpa using htake) fun hnil=>by simp [hnil] at htake;omega
    have hrest:=ih (l.drop n).length (by rw [length_drop];omega) (compress h (l.take n)) _ rfl
    conv_lhs=>rw [← take_append_drop n l,feed_append,hfirst,hrest]
    have hcount : l.length/n=(l.drop n).length/n+1:=by
      rw [length_drop,← Nat.add_div_right _ hn,Nat.sub_add_cancel hle]
    rw [blocks_next hn hle,drop_drop,hcount,Nat.mul_succ,Nat.add_comm]

end BlockFeeding
