import AutoRefirst.MarshalHash
import AutoRefirst.MarshalHeaps
import AutoRefirst.ScopedTraversal

/-!
# When the semantic hash returns

The canonical form is a traversal of the objects that starts the members of a set with no open
object. It ends exactly when no set that is reached contains itself.
-/

namespace AutoRefirst.PythonMarshal
open List Option

open ScopedTraversal

/-- The parts that the canonical form of an object writes. -/
def Heap.parts (h : Heap) (id : ℕ) : List ℕ :=
  match h[id]?.bind Node.shape with
  | some s => s.2.filterMap fun x => x
  | none => []

def Heap.isSet (h : Heap) (id : ℕ) : Prop :=
  h[id]?.map Node.k = some .set ∨ h[id]?.map Node.k = some .frozenSet

/-- A heap in which each object has a shape and its parts are objects. -/
def Heap.Filled (h : Heap) : Prop := ∀ (id : ℕ) (n : Node), h[id]? = some n → n.Filled h.length

variable {h : Heap} {id : ℕ} {n : Node} {ℓ : Label} {xs : List (Option ℕ)}

theorem parts_eq (hn:h[id]? = some n) (hshape:n.shape=some (ℓ,xs)) :
    h.parts id = xs.filterMap fun x=>x:=by
  rw [Heap.parts,hn,bind_some,hshape]

theorem mem_parts (hn:h[id]? = some n) (hshape:n.shape=some (ℓ,xs)) (c:ℕ) :
    c∈h.parts id ↔ some c∈xs:=by
  rw [parts_eq hn hshape,mem_filterMap]
  constructor
  · rintro ⟨x,hx,rfl⟩
    exact hx
  · intro hc
    exact ⟨some c,hc,rfl⟩

variable {active : List ℕ}

/-- The members of sets start afresh. -/
theorem scope_opened (hn:h[id]? = some n) (hshape:n.shape=some (ℓ,xs)) :
    Scope h.isSet active id (ℓ.opened (id::active)):=by
  have hkind : h[id]?.map Node.k=some n.k:=by
    rw [hn]
    rfl
  unfold Scope Heap.isSet
  rw [hkind]
  unfold Node.shape at hshape
  cases hk : n.k with
  | set=>
    rw [hk] at hshape
    rw [← (Prod.mk.inj (some.inj hshape)).1]
    exact .inl ⟨.inl rfl,rfl⟩
  | frozenSet=>
    rw [hk] at hshape
    rw [← (Prod.mk.inj (some.inj hshape)).1]
    exact .inl ⟨.inr rfl,rfl⟩
  | code=>
    rw [hk] at hshape
    obtain ⟨c,-,hc⟩:=map_eq_some_iff.mp hshape
    rw [← (Prod.mk.inj hc).1]
    exact .inr ⟨by decide,rfl⟩
  | _=>
    rw [hk] at hshape
    rw [← (Prod.mk.inj (some.inj hshape)).1]
    exact .inr ⟨by decide,rfl⟩

theorem ofHeap_visit {fuel:ℕ} (hid:id ∉ active) (hn:h[id]? = some n)
    (hshape:n.shape=some (ℓ,xs)) :
    Value.ofHeap h (fuel+1) active (some id) =
      (xs.mapM (Value.ofHeap h fuel (ℓ.opened (id::active)))).map (Value.node ℓ):=by
  rw [Value.ofHeap,idxOf?_eq_none_iff.mpr hid]
  simp only [hn,hshape,bind_eq_bind,bind_some]
  cases xs.mapM (Value.ofHeap h fuel (ℓ.opened (id::active))) with
  | none=>rfl
  | some vs=>rfl

theorem done_of_ofHeap (hfilled:h.Filled) : ∀ {fuel:ℕ} {active:List ℕ} {id:ℕ} {v:Value}
    , Value.ofHeap h fuel active (some id)=some v →
      Done h.parts h.isSet active id:=by
  intro fuel
  induction fuel with
  | zero=>
    intro active id v hv
    cases hv
  | succ fuel ih=>
    intro active id v hv
    by_cases hid : id∈active
    · exact .seen hid
    cases hn : h[id]? with
    | none=>
      rw [Value.ofHeap,idxOf?_eq_none_iff.mpr hid] at hv
      simp only [hn,bind_eq_bind,bind_none] at hv
      cases hv
    | some n=>
      obtain ⟨ℓ,xs,hshape,-⟩:=hfilled id n hn
      rw [ofHeap_visit hid hn hshape] at hv
      obtain ⟨vs,hvs,-⟩:=map_eq_some_iff.mp hv
      refine .visit hid (scope_opened hn hshape) fun c hc=>?_
      have hmem:=(mem_parts hn hshape c).mp hc
      obtain ⟨i,hi⟩:=mem_iff_getElem?.mp hmem
      obtain ⟨hlt,-⟩:=List.getElem?_eq_some_iff.mp hi
      have hlen:=mapM_length hvs
      have hvi : ∃w,vs[i]? = some w:=⟨_,getElem?_eq_getElem (by omega)⟩
      obtain ⟨w,hw⟩:=hvi
      obtain ⟨x,hx,hv'⟩:=mapM_getElem? hvs i w hw
      rw [hi] at hx
      obtain rfl:=some.inj hx
      exact ih hv'

theorem exists_mapM (xs:List (Option ℕ)) (hall:∀x∈xs,∃fuel v,Value.ofHeap h fuel active x=some v) :
    ∃fuel vs,xs.mapM (Value.ofHeap h fuel active)=some vs:=by
  induction xs with
  | nil=>exact ⟨0,[],rfl⟩
  | cons x xs ih=>
    obtain ⟨fuel,v,hv⟩:=hall x mem_cons_self
    obtain ⟨fuel',vs,hvs⟩:=ih fun y hy=>hall y (mem_cons_of_mem x hy)
    refine ⟨max fuel fuel',v::vs,mapM_eq_some.mpr (.cons ?_ ?_)⟩
    · exact Value.ofHeap_mono (Nat.le_max_left _ _) hv
    · exact (mapM_eq_some.mp hvs).imp fun y w hw=>Value.ofHeap_mono (Nat.le_max_right _ _) hw

/-- What is traversed can be built. -/
theorem ofHeap_of_done (hfilled:h.Filled) (hdone:Done h.parts h.isSet active id) (hid:id<h.length) :
    ∃fuel v,Value.ofHeap h fuel active (some id)=some v:=by
  induction hdone with
  | @seen active id hmem=>
    obtain ⟨level,hlevel⟩:=isSome_iff_exists.mp (isSome_idxOf?.mpr hmem)
    exact ⟨1,.node (.enclosing level) [],by rw [Value.ofHeap,hlevel]⟩
  | @visit active inner id hmem hscope hparts ih=>
    have hn:=getElem?_eq_getElem hid
    obtain ⟨ℓ,xs,hshape,hlt⟩:=hfilled id _ hn
    have hscope' : Scope h.isSet active id (ℓ.opened (id::active)):=scope_opened hn hshape
    have hinner : inner=ℓ.opened (id::active):=by
      rcases hscope with ⟨hset,rfl⟩ | ⟨hset,rfl⟩
      · rcases hscope' with ⟨-,h'⟩ | ⟨hnot,-⟩
        · exact h'.symm
        · exact absurd hset hnot
      · rcases hscope' with ⟨hset',-⟩ | ⟨-,h'⟩
        · exact absurd hset' hset
        · exact h'.symm
    have hall : ∀x∈xs,∃fuel v,Value.ofHeap h fuel inner x=some v:=by
      intro x hx
      cases x with
      | none=>exact ⟨1,.node .missing [],rfl⟩
      | some c=>exact ih c ((mem_parts hn hshape c).mpr hx) (hlt c hx)
    obtain ⟨fuel,vs,hvs⟩:=exists_mapM xs hall
    rw [hinner] at hvs
    exact ⟨fuel+1,.node ℓ vs,by rw [ofHeap_visit hmem hn hshape,hvs];rfl⟩

/-- The canonical form of an object is found exactly when no set below it contains itself. -/
theorem canonOne_iff (hfilled:h.Filled) {root:ℕ} (hroot:root<h.length) :
    (∃fuel c,canonOne fuel h root=some c) ↔
      ∀s,Reach h.parts root s → h.isSet s → ¬Reach₁ h.parts s s:=by
  have hclosed : ∀a∈Finset.range h.length,∀c∈h.parts a,c∈Finset.range h.length:=by
    intro a ha c hc
    have hn:=getElem?_eq_getElem (Finset.mem_range.mp ha)
    obtain ⟨ℓ,xs,hshape,hlt⟩:=hfilled a _ hn
    exact Finset.mem_range.mpr (hlt c ((mem_parts hn hshape c).mp hc))
  rw [← done_iff hclosed (Finset.mem_range.mpr hroot)]
  constructor
  · rintro ⟨fuel,c,hc⟩
    rw [canonOne,canon_eq_bytes] at hc
    obtain ⟨v,hv,-⟩:=map_eq_some_iff.mp hc
    exact done_of_ofHeap hfilled hv
  · intro hdone
    obtain ⟨fuel,v,hv⟩:=ofHeap_of_done hfilled hdone hroot
    exact ⟨fuel,v.bytes,by rw [canonOne,canon_eq_bytes,hv];rfl⟩

theorem readCode_filled {d:Bytes} {version:ℤ} {root:ℕ} {r:Reader}
    (h:readCode d version=.ok (root,r)) : root < r.heap.length ∧ r.heap.Filled:=by
  unfold readCode at h
  dsimp only at h
  split_ifs at h
  split at h
  · cases h
  next root' r' hparse=>
    split_ifs at h
    obtain ⟨rfl,rfl⟩:=Prod.mk.inj (Except.ok.inj h)
    exact filled_parseRoot hparse

/-- The semantic hash returns, on every input that is no code object and on every code object in
which no set contains itself, and on no other. -/
theorem semanticHash_returns_iff (sha : Bytes→Bytes) (d : Bytes) (version : ℤ) :
    (∃ fuel out, semanticHash sha fuel d version=some out) ↔
      ∀ root r, readCode d version=.ok (root,r) →
        ∀ s, Reach r.heap.parts root s → r.heap.isSet s → ¬Reach₁ r.heap.parts s s := by
  cases hread : readCode d version with
  | error out=>
    refine ⟨fun _ root r h=>(by cases h),fun _=>⟨0,{out with valid:=false},?_⟩⟩
    rw [semanticHash,hread]
  | ok x=>
    obtain ⟨root,r⟩:=x
    obtain ⟨hroot,hfilled⟩:=readCode_filled hread
    have hcanon:=canonOne_iff hfilled hroot
    constructor
    · rintro ⟨fuel,out,hout⟩ root' r' heq
      obtain ⟨rfl,rfl⟩:=Prod.mk.inj (Except.ok.inj heq)
      rw [semanticHash,hread] at hout
      obtain ⟨c,hc,-⟩:=bind_eq_some_iff.mp hout
      exact hcanon.mp ⟨fuel,c,hc⟩
    · intro hsets
      obtain ⟨fuel,c,hc⟩:=hcanon.mpr (hsets root r rfl)
      refine ⟨fuel,{r.out with sha256:=sha c,valid:=true},?_⟩
      rw [semanticHash,hread]
      simp only [hc]
      rfl

/-- A code object whose constants are a set that contains itself. -/
def selfSet : Bytes := streamWith [byte '<' + 128,1,0,0,0,byte 'r',0,0,0,0]

theorem selfSet_hangs (sha:Bytes→Bytes) :
    ¬ ∃fuel out,semanticHash sha fuel selfSet 38=some out:=by
  have hheap : (readCode selfSet 38).toOption.map (fun x=>(x.1,x.2.heap.parts 0,
      x.2.heap.parts 2,x.2.heap[2]?.map Node.k)) =
      some (0,[1,2,3,4,5,6,8],[2],some .set):=by decide +kernel
  rw [semanticHash_returns_iff]
  intro h
  cases hread : readCode selfSet 38 with
  | error out=>
    rw [hread] at hheap
    cases hheap
  | ok x=>
    rw [hread] at hheap
    obtain ⟨hroot,hrest⟩:=Prod.mk.inj (some.inj hheap)
    obtain ⟨hcode,hrest⟩:=Prod.mk.inj hrest
    obtain ⟨hset,hkind⟩:=Prod.mk.inj hrest
    have hreach : Edge x.2.heap.parts x.1 2:=by
      rw [hroot]
      show 2 ∈ x.2.heap.parts 0
      rw [hcode]
      decide
    have hloop : Edge x.2.heap.parts 2 2:=by
      show 2 ∈ x.2.heap.parts 2
      rw [hset]
      decide
    exact h x.1 x.2 hread 2 (.single hreach) (.inl hkind) (.single hloop)

theorem semanticHash_hangs : ¬ ∀(sha:Bytes→Bytes) (d:Bytes) (version:ℤ),
      ∃fuel out, semanticHash sha fuel d version=some out:=
  fun h=>selfSet_hangs id (h id selfSet 38)

end AutoRefirst.PythonMarshal
