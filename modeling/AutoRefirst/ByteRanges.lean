import AutoRefirst.ByteText
import Mathlib.Data.List.Sort

/-! Ranges of a byte text: the bytes of a range, ranges that follow one another, and the bytes
of such ranges as the bytes at the positions in them. -/

namespace AutoRefirst.ByteRanges
open List

/-- An offset and a number of bytes. -/
abbrev Range := ℕ×ℕ

def slice (d : Bytes) (r : Range) : Bytes := (d.drop r.1).take r.2

def Range.Holds (r : Range) (i : ℕ) : Prop := r.1 ≤ i ∧ i < r.1+r.2

instance (r : Range) (i : ℕ) : Decidable (r.Holds i) := inferInstanceAs (Decidable (_ ∧ _))

/-- The ranges follow one another between `a` and `b`. -/
def Ascending : ℕ → ℕ → List Range → Prop
  | a, b, [] => a ≤ b
  | a, b, r::rs => a ≤ r.1 ∧ Ascending (r.1+r.2) b rs

def gather (d : Bytes) (rs : List Range) : Bytes := rs.flatMap (slice d)

variable {d d' : Bytes} {a b i : ℕ} {r : Range} {rs : List Range}

theorem Ascending.le (h:Ascending a b rs) : a≤b:=by
  induction rs generalizing a with
  | nil=>exact h
  | cons r rs ih=>
    have hle:=ih h.2
    have hfrom:=h.1
    omega

theorem Ascending.within (h:Ascending a b rs) (hr:r∈rs) : a ≤ r.1 ∧ r.1+r.2≤b:=by
  induction rs generalizing a with
  | nil=>cases hr
  | cons x rs ih=>
    obtain ⟨hfrom,hrest⟩:=h
    rcases mem_cons.mp hr with rfl | hmem
    · exact ⟨hfrom,hrest.le⟩
    · have hin:=ih hrest hmem
      exact ⟨by omega,hin.2⟩

/-- No two of the ranges share a byte. -/
theorem Ascending.disjoint (h:Ascending a b rs) : rs.Pairwise fun r s=>r.1+r.2 ≤ s.1:=by
  induction rs generalizing a with
  | nil=>exact List.Pairwise.nil
  | cons r rs ih=>exact pairwise_cons.mpr ⟨fun s hs=>(h.2.within hs).1,ih h.2⟩

theorem Ascending.append {c:ℕ} {ss:List Range} (h:Ascending a b rs)
    (hs:Ascending b c ss) : Ascending a c (rs++ss):=by
  induction rs generalizing a with
  | nil=>
    cases ss with
    | nil=>exact Nat.le_trans h hs
    | cons s ss=>exact ⟨Nat.le_trans h hs.1,hs.2⟩
  | cons r rs ih=>exact ⟨h.1,ih h.2⟩

theorem length_slice (h:r.1+r.2≤d.length) : (slice d r).length=r.2:=by
  rw [slice,length_take,length_drop]
  omega

theorem getElem?_slice {k:ℕ} (hk:k < r.2) : (slice d r)[k]? = d[r.1+k]? := by
  rw [slice,getElem?_take_of_lt hk,getElem?_drop]

theorem slice_congr (h:∀i,r.Holds i → d[i]? = d'[i]?) : slice d r=slice d' r:=by
  apply ext_getElem?
  intro k
  by_cases hk : k < r.2
  · rw [getElem?_slice hk,getElem?_slice hk]
    exact h _ ⟨by omega,by omega⟩
  · simp [slice,hk]

theorem gather_congr (h:∀r∈rs,∀i,r.Holds i → d[i]? = d'[i]?) : gather d rs=gather d' rs:=by
  rw [gather,gather,flatMap_def,flatMap_def]
  exact congrArg _ (map_congr_left fun r hr=>slice_congr (h r hr))

/-- Equal bytes gathered over the same ranges are equal range by range. -/
theorem slice_eq_of_gather_eq (hd:∀r∈rs,r.1+r.2≤d.length)
    (hd':∀r∈rs,r.1+r.2≤d'.length) (h:gather d rs=gather d' rs) (hr:r∈rs) :
    slice d r=slice d' r:=by
  induction rs with
  | nil=>cases hr
  | cons x rs ih=>
    have hlen : (slice d x).length=(slice d' x).length:=by
      rw [length_slice (hd x mem_cons_self),length_slice (hd' x mem_cons_self)]
    obtain ⟨hfirst,hrest⟩:=append_inj h hlen
    rcases mem_cons.mp hr with rfl | hmem
    · exact hfirst
    · exact ih (fun y hy=>hd y (mem_cons_of_mem _ hy))
        (fun y hy=>hd' y (mem_cons_of_mem _ hy)) hrest hmem

theorem getElem?_eq_of_slice_eq (h:slice d r=slice d' r) (hi:r.Holds i) : d[i]? = d'[i]? := by
  obtain ⟨hle,hlt⟩:=hi
  have hk : i-r.1 < r.2:=by omega
  have heq : r.1+(i-r.1)=i:=by omega
  rw [← heq,← getElem?_slice hk,h,getElem?_slice hk]

/-- The bytes at the given positions. -/
def bytesAt (d : Bytes) (is : List ℕ) : Bytes := is.map fun i => d.getD i 0

def positions (rs : List Range) : List ℕ := rs.flatMap fun r => range' r.1 r.2

theorem mem_positions : i∈positions rs ↔ ∃r∈rs,r.Holds i:=by
  simp only [positions,mem_flatMap,mem_range'_1,Range.Holds]

theorem Ascending.positions_lt (h:Ascending a b rs) : (positions rs).Pairwise (· < ·):=by
  induction rs generalizing a with
  | nil=>exact List.Pairwise.nil
  | cons r rs ih=>
    refine pairwise_append.mpr ⟨pairwise_lt_range',ih h.2,fun i hi j hj=>?_⟩
    obtain ⟨s,hs,hj⟩:=mem_positions.mp hj
    have hwithin:=h.2.within hs
    have hbelow:=(mem_range'_1.mp hi).2
    exact Nat.lt_of_lt_of_le hbelow (Nat.le_trans hwithin.1 hj.1)

theorem slice_eq_bytesAt (h:r.1+r.2≤d.length) : slice d r=bytesAt d (range' r.1 r.2):=by
  apply ext_getElem?
  intro k
  by_cases hk : k < r.2
  · have hin : r.1+k<d.length:=by omega
    rw [getElem?_slice hk,bytesAt,getElem?_map,getElem?_range' hk]
    simp [hin]
  · have hlen:=length_slice h
    rw [getElem?_eq_none (by omega),getElem?_eq_none (by simp [bytesAt];omega)]

theorem gather_eq_bytesAt (h:∀r∈rs,r.1+r.2≤d.length) :
    gather d rs=bytesAt d (positions rs):=by
  induction rs with
  | nil=>rfl
  | cons r rs ih=>
    have hrest:=ih fun s hs=>h s (mem_cons_of_mem _ hs)
    have hfirst:=slice_eq_bytesAt (h r mem_cons_self)
    calc gather d (r::rs) = slice d r++gather d rs:=rfl
      _ = bytesAt d (range' r.1 r.2)++bytesAt d (positions rs):=by rw [hfirst,hrest]
      _=bytesAt d (positions (r::rs)):=(map_append).symm

/-- Positions listed in ascending order are determined by which there are. -/
theorem eq_filter_range {is:List ℕ} (h:is.Pairwise (· < ·)) {n:ℕ} {p:ℕ→Bool}
    (hp:∀i,i∈is ↔ i<n ∧ p i=true) : is=(List.range n).filter p:=by
  refine List.Pairwise.eq_of_mem_iff h (pairwise_lt_range.filter _) fun i=>?_
  rw [hp,mem_filter,mem_range]

end AutoRefirst.ByteRanges
