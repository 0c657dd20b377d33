import AutoRefirst.MethodDispatchWalks

/-!
# A resolved method dispatch

What a resolved dispatch says of the methods and types, and how it follows from what was read
for each method.
-/

namespace AutoRefirst.MethodDispatch
open List Option

open Fallible

def HasInvoker (base : UInt64) (pointer : ℕ→UInt64) (value : Option ℕ) (m : UnityMethodInfo) :
    Prop :=
  m.invokerResolved = value.isSome ∧ m.invokerIndex = value ∧
    m.invokerPointerVa = (value.map pointer).getD 0 ∧
    m.invokerRva = (value.map fun ii => pointer ii - base).getD 0

def HasThunk (base : UInt64) (va : Option UInt64) (m : UnityMethodInfo) : Prop :=
  m.adjustorThunkResolved = va.isSome ∧ m.adjustorThunkVa = va.getD 0 ∧
    m.adjustorThunkRva = (va.map (· - base)).getD 0

structure InvokerRow where
  image : String
  rid : ℕ
  value : Option ℕ

/-- Every method is in one of the images and has one row, every row has one method, every thunk
is attached to the method of its token, and the counts are those of what is attached. -/
structure Dispatched (base : UInt64) (pointer : ℕ→UInt64) (names : List String)
    (rows : List InvokerRow) (thunks : List Thunk) (u : UnityInfo) : Prop where
  image : ∀ m∈u.methods, m.imageName∈names
  dense : ∀ name∈names, ((groupOf u.methods name).map fun i => rid (tokenOf u.methods i)).Perm
    (range' 1 (groupOf u.methods name).length)
  invokers : ∃ owners : List ℕ, owners.Perm (List.range u.methods.length) ∧
    List.Forall₂ (fun i row => ∃ m, u.methods[i]? = some m ∧ m.imageName=row.image ∧
      rid m.token = row.rid ∧ HasInvoker base pointer row.value m) owners rows
  thunked : ∃ owners : List ℕ, owners.Nodup ∧
    List.Forall₂ (fun i t => ∃ m, u.methods[i]? = some m ∧ m.imageName=t.image ∧
      m.token = t.token ∧ HasThunk base (some t.va) m) owners thunks ∧
    ∀ i m, u.methods[i]? = some m → i ∉ owners → HasThunk base none m
  methodCount : u.methodDispatchMethodCount=u.methods.length
  resolvedCount : u.methodInvokerResolvedCount=u.methods.countP (·.invokerResolved)
  missingCount : u.methodInvokerMissingCount=u.methods.countP (!·.invokerResolved)
  adjustorCount : u.methodAdjustorCount=u.methods.countP (·.adjustorThunkResolved)

def HasStatic (cctors : Option (List UnityMethodInfo)) (t : UnityTypeInfo) : Prop :=
  t.staticInitListed = cctors.isSome ∧
    t.staticConstructorResolved = decide (cctors.getD [] ≠ []) ∧
    t.staticConstructorMethodIndex = (cctors.getD []).head?.map (·.index) ∧
    t.staticConstructorRva = ((cctors.getD []).head?.map (·.rva)).getD 0

/-- Every static-initialiser row is of one image and one type, and the counts are those of what
is attached. -/
structure StaticsListed (md : Metadata) (methods : List UnityMethodInfo) (u : UnityInfo) :
    Prop where
  rows : ((md.images.flatMap staticRowsOf).map Prod.snd).Perm
    (List.range md.staticCtorTypesV108.count)
  types : ∃ owners : List ℕ, owners.Nodup ∧
    List.Forall₂ (fun i row => ∃ t, u.types[i]? = some t ∧ t.index = staticType md row.2 ∧
      t.imageIndex = some row.1.index ∧ (cctorsOf methods t.index).length≤1 ∧
      HasStatic (some (cctorsOf methods t.index)) t) owners (md.images.flatMap staticRowsOf) ∧
    ∀ i t, u.types[i]? = some t → i ∉ owners → HasStatic none t
  listedCount : u.staticInitTypeCount=u.types.countP (·.staticInitListed)
  cctorCount : u.staticInitWithCctorCount=u.types.countP (·.staticConstructorResolved)

section
variable {α β : Type} {l : List α} {rs : List β} {owners : List ℕ} {p : α→Bool} {q : β→Bool}

theorem countP_range (l:List α) (p:α→Bool) :
    l.countP p = (List.range l.length).countP fun i=>l[i]?.any p:=by
  have hl : (List.range l.length).map (fun i=>l[i]?) = l.map some:=by
    apply ext_getElem?
    intro k
    rw [getElem?_map,getElem?_map]
    by_cases hk : k<l.length
    · rw [getElem?_range hk,map_some,getElem?_eq_getElem hk,map_some]
    · rw [getElem?_eq_none (by simpa using hk),getElem?_eq_none (by simpa using hk)]
      rfl
  have hcount:=congrArg (countP fun o:Option α=>o.any p) hl
  rw [countP_map,countP_map] at hcount
  exact hcount.symm

theorem countP_forall₂ {R:ℕ→β→Prop} {f:ℕ→Bool} (h:List.Forall₂ R owners rs)
    (hR:∀i r,R i r → f i=q r) : owners.countP f=rs.countP q:=by
  induction h with
  | nil=>rfl
  | cons hr _ ih=>rw [countP_cons,countP_cons,ih,hR _ _ hr]

theorem countP_owners {R:ℕ→β→Prop} (hperm:owners.Perm (List.range l.length))
    (h:List.Forall₂ R owners rs) (hR:∀i r,R i r → ∃a,l[i]? = some a ∧ p a=q r) :
    l.countP p=rs.countP q:=by
  rw [countP_range,← hperm.countP_eq]
  refine countP_forall₂ h fun i r hr=>?_
  obtain ⟨a,ha,heq⟩:=hR i r hr
  rw [ha,any_some,heq]

/-- Where the others fail the test, as many pass it as the owners do. -/
theorem countP_some_owners (hnodup:owners.Nodup) (hmem:∀i∈owners,i<l.length)
    (hothers:∀i a,l[i]? = some a → i ∉ owners → p a=false) :
    l.countP p = owners.countP fun i=>l[i]?.any p:=by
  rw [countP_range]
  have hperm : ((List.range l.length).filter (decide <| · ∈ owners)).Perm owners:=by
    refine (perm_ext_iff_of_nodup (nodup_range.filter _) hnodup).mpr fun i=>?_
    rw [mem_filter,mem_range,decide_eq_true_eq]
    exact ⟨fun h=>h.2,fun h=>⟨hmem i h,h⟩⟩
  rw [← hperm.countP_eq,countP_filter]
  refine countP_congr fun i hi=>?_
  rw [Bool.and_eq_true,decide_eq_true_eq,iff_self_and]
  intro hany
  by_contra hnot
  rw [getElem?_eq_getElem (mem_range.mp hi),any_some,
    hothers i _ (getElem?_eq_getElem (mem_range.mp hi)) hnot] at hany
  cases hany

end

section
variable {g : Game} {invPtrs : ℕ} {value : Option ℕ} {va : UInt64} {m : UnityMethodInfo}

theorem hasInvoker_attach (m:UnityMethodInfo) :
    HasInvoker g.imageBase (pointerAt g invPtrs) value (attachInvoker g invPtrs value m.cleared):=by
  cases value <;> exact ⟨rfl,rfl,rfl,rfl⟩

theorem hasThunk_none (m:UnityMethodInfo) :
    HasThunk g.imageBase none (attachInvoker g invPtrs value m.cleared):=by
  cases value <;> exact ⟨rfl,rfl,rfl⟩

theorem hasThunk_attach : HasThunk g.imageBase (some va) (attachThunk g va m):=⟨rfl,rfl,rfl⟩

theorem HasInvoker.attachThunk {base:UInt64} {pointer:ℕ→UInt64}
    (h:HasInvoker base pointer value m) :
    HasInvoker base pointer value (MethodDispatch.attachThunk g va m):=h

theorem attachInvoker_same (g:Game) (invPtrs:ℕ) (value:Option ℕ) (m:UnityMethodInfo) :
    (attachInvoker g invPtrs value m.cleared).imageName=m.imageName ∧
      (attachInvoker g invPtrs value m.cleared).token=m.token:=by
  cases value <;> exact ⟨rfl,rfl⟩

end

structure SameMethods (methods methods' : List UnityMethodInfo) : Prop where
  length : methods'.length=methods.length
  same : ∀ (i : ℕ) (m : UnityMethodInfo), methods[i]? = some m →
    ∃ m' : UnityMethodInfo, methods'[i]? = some m' ∧ m'.imageName=m.imageName ∧
      m'.token = m.token

section
variable {methods methods' : List UnityMethodInfo}

theorem SameMethods.tokenOf (h:SameMethods methods methods') (i:ℕ) :
    tokenOf methods' i=tokenOf methods i:=by
  unfold MethodDispatch.tokenOf
  cases hm : methods[i]? with
  | none=>
    rw [getElem?_eq_none_iff,← h.length,← getElem?_eq_none_iff] at hm
    rw [hm]
  | some m=>
    obtain ⟨m',hm',-,htoken⟩:=h.same i m hm
    rw [hm',map_some,map_some,htoken]

theorem SameMethods.groupOf (h:SameMethods methods methods') (name:String) :
    groupOf methods' name=groupOf methods name:=by
  unfold MethodDispatch.groupOf
  rw [h.length]
  refine filter_congr fun i hi=>?_
  obtain ⟨m',hm',hname,-⟩:=h.same i _ (getElem?_eq_getElem (mem_range.mp hi))
  rw [hm',getElem?_eq_getElem (mem_range.mp hi),any_some,any_some, hname]

end

section
variable {u u' : UnityInfo} {base : UInt64} {pointer : ℕ→UInt64} {names : List String}
  {vs : List (ℕ×InvokerRow)} {ws : List (ℕ×Thunk)}

/-- A row was read for every method and every thunk for a method of its own, and the methods are
left as the rows and thunks say. -/
structure Read (u u' : UnityInfo) (base : UInt64) (pointer : ℕ→UInt64) (names : List String)
    (vs : List (ℕ×InvokerRow)) (ws : List (ℕ×Thunk)) : Prop where
  owners : (vs.map Prod.fst).Perm (List.range u.methods.length)
  nodup : (ws.map Prod.fst).Nodup
  length : u'.methods.length=u.methods.length
  dense : ∀ name∈names, ((groupOf u.methods name).map fun i => rid (tokenOf u.methods i)).Perm
    (range' 1 (groupOf u.methods name).length)
  rows : ∀ v∈vs, ∃ m, u.methods[v.1]? = some m ∧ m.imageName=v.2.image ∧
    rid m.token = v.2.rid ∧ v.2.image∈names
  thunks : ∀ w∈ws, ∃ m, u.methods[w.1]? = some m ∧ m.imageName=w.2.image ∧
    m.token = w.2.token
  final : ∀ v∈vs, ∀ m, u.methods[v.1]? = some m → ∃ m', u'.methods[v.1]? = some m' ∧
    m'.imageName = m.imageName ∧ m'.token=m.token ∧ HasInvoker base pointer v.2.value m' ∧
    (∀ w∈ws, w.1=v.1 → HasThunk base (some w.2.va) m') ∧
    (v.1 ∉ ws.map Prod.fst → HasThunk base none m')

/-- The counts that are reported are those of the rows and thunks that were read. -/
structure Counted (u u' : UnityInfo) (vs : List (ℕ×InvokerRow)) (ws : List (ℕ×Thunk)) :
    Prop where
  methods : u'.methodDispatchMethodCount=u.methods.length
  resolved : u'.methodInvokerResolvedCount = vs.countP fun v => v.2.value.isSome
  missing : u'.methodInvokerMissingCount = vs.countP fun v => !v.2.value.isSome
  adjustors : u'.methodAdjustorCount=ws.length

namespace Read

variable (h : Read u u' base pointer names vs ws)
include h

variable {i : ℕ}

theorem row_of (hi:i<u.methods.length) : ∃v∈vs,v.1=i:=
  List.mem_map.mp (h.owners.mem_iff.mpr (mem_range.mpr hi))

theorem method {m:UnityMethodInfo} (hm:u.methods[i]? = some m) :
    ∃v∈vs,∃m',v.1=i ∧ u'.methods[i]? = some m' ∧ m'.imageName=m.imageName ∧
      m'.token=m.token ∧ HasInvoker base pointer v.2.value m' ∧
      (∀w∈ws,w.1=i → HasThunk base (some w.2.va) m') ∧
      (i ∉ ws.map Prod.fst → HasThunk base none m'):=by
  obtain ⟨v,hv,rfl⟩:=h.row_of (List.getElem?_eq_some_iff.mp hm).1
  obtain ⟨m',hm',hname,htoken,hinvoker,hthunk,hnone⟩:=h.final v hv m hm
  exact ⟨v,hv,m',rfl,hm',hname,htoken,hinvoker,hthunk,hnone⟩

theorem same : SameMethods u.methods u'.methods:=by
  refine ⟨h.length,fun i m hm=>?_⟩
  obtain ⟨-,-,m',-,hm',hname,htoken,-⟩:=h.method hm
  exact ⟨m',hm',hname,htoken⟩

theorem invokers : List.Forall₂ (fun i row=>∃m,u'.methods[i]? = some m ∧
    m.imageName=row.image ∧ rid m.token=row.rid ∧ HasInvoker base pointer row.value m)
    (vs.map Prod.fst) (vs.map Prod.snd):=by
  rw [forall₂_map_left_iff,forall₂_map_right_iff,forall₂_same]
  intro v hv
  obtain ⟨m,hm,himage,hrid,-⟩:=h.rows v hv
  obtain ⟨m',hm',hname,htoken,hinvoker,-⟩:=h.final v hv m hm
  exact ⟨m',hm',hname.trans himage,by rw [htoken,hrid],hinvoker⟩

theorem thunked : List.Forall₂ (fun i t=>∃m,u'.methods[i]? = some m ∧
    m.imageName=t.image ∧ m.token=t.token ∧ HasThunk base (some t.va) m)
    (ws.map Prod.fst) (ws.map Prod.snd):=by
  rw [forall₂_map_left_iff,forall₂_map_right_iff,forall₂_same]
  intro w hw
  obtain ⟨m,hm,himage,htoken⟩:=h.thunks w hw
  obtain ⟨-,-,m',-,hm',hname,htoken',-,hthunk,-⟩:=h.method hm
  exact ⟨m',hm',hname.trans himage,htoken'.trans htoken,hthunk w hw rfl⟩

theorem others {m:UnityMethodInfo} (hm:u'.methods[i]? = some m) (hnot:i ∉ ws.map Prod.fst) :
    HasThunk base none m:=by
  have hlt:=(List.getElem?_eq_some_iff.mp hm).1
  rw [h.length] at hlt
  obtain ⟨-,-,m',-,hm',-,-,-,-,hnone⟩:=h.method (getElem?_eq_getElem hlt)
  rw [hm] at hm'
  cases hm'
  exact hnone hnot

theorem dispatched (hcounts:Counted u u' vs ws) :
    Dispatched base pointer names (vs.map Prod.snd) (ws.map Prod.snd) u':=by
  have hperm : (vs.map Prod.fst).Perm (List.range u'.methods.length):=h.length▸h.owners
  have hrows : (vs.map Prod.snd).countP (·.value.isSome) = vs.countP fun v=>v.2.value.isSome:=
    countP_map
  have hnulls : (vs.map Prod.snd).countP (!·.value.isSome) = vs.countP fun v=>!v.2.value.isSome:=
    countP_map
  refine ⟨?_,?_,⟨_,hperm,h.invokers⟩,⟨_,h.nodup,h.thunked,fun i m hm=>h.others hm⟩,
    hcounts.methods.trans h.length.symm,?_,?_,?_⟩
  · intro m hm
    obtain ⟨i,hi⟩:=mem_iff_getElem?.mp hm
    have hlt:=(List.getElem?_eq_some_iff.mp hi).1
    rw [h.length] at hlt
    obtain ⟨v,hv,m',rfl,hm',hname,-⟩:=h.method (getElem?_eq_getElem hlt)
    obtain ⟨m₀,hm₀,himage,-,hmem⟩:=h.rows v hv
    rw [hi] at hm'
    cases hm'
    rw [getElem?_eq_getElem hlt] at hm₀
    cases hm₀
    rw [hname,himage]
    exact hmem
  · intro name hname
    rw [h.same.groupOf]
    simp only [h.same.tokenOf]
    exact h.dense name hname
  · rw [hcounts.resolved,← hrows]
    refine (countP_owners hperm h.invokers fun i row hrow=>?_).symm
    obtain ⟨m,hm,-,-,hresolved,-⟩:=hrow
    exact ⟨m,hm,hresolved⟩
  · rw [hcounts.missing,← hnulls]
    refine (countP_owners hperm h.invokers fun i row hrow=>?_).symm
    obtain ⟨m,hm,-,-,hresolved,-⟩:=hrow
    exact ⟨m,hm,congrArg (!·) hresolved⟩
  · have hbound : ∀i∈ws.map Prod.fst,i<u'.methods.length:=by
      intro i hi
      obtain ⟨w,hw,rfl⟩:=List.mem_map.mp hi
      obtain ⟨m,hm,-⟩:=h.thunks w hw
      rw [h.length]
      exact (List.getElem?_eq_some_iff.mp hm).1
    have hall : (ws.map Prod.fst).countP (fun i=>u'.methods[i]?.any (·.adjustorThunkResolved)) =
        (ws.map Prod.snd).countP fun _=>true:=by
      refine countP_forall₂ h.thunked fun i t ht=>?_
      obtain ⟨m,hm,-,-,hresolved,-⟩:=ht
      rw [hm]
      exact hresolved
    rw [hcounts.adjustors,countP_some_owners h.nodup hbound fun i m hm hnot=>
      (h.others hm hnot).1,hall,countP_true,length_map]

end Read

end

end AutoRefirst.MethodDispatch

/-!
## Method dispatch of v108

A resolved attempt has read every row and every thunk, and where the images have different names
it says so of every method.
-/

namespace AutoRefirst.MethodDispatch
open List Option

open Fallible

section
variable {u : UnityInfo} {g : Game} {md : Metadata} {invokerCount invPtrs : ℕ} {inv : InvokerWalk}
  {thunks : ThunkWalk} {vs : List InvokerVisit} {ws : List ThunkVisit}

theorem walked_method (hvs:Invoked g md invokerCount invPtrs
      {methods:=u.methods.map UnityMethodInfo.cleared} inv vs)
    (howners:(vs.map (·.method)).Perm (List.range u.methods.length))
    (hws:Thunked g u.methods {methods:=inv.methods} thunks ws)
    {v:InvokerVisit} (hv:v∈vs) {m:UnityMethodInfo} (hm:u.methods[v.method]? = some m) :
    let m':=attachInvoker g invPtrs (rowValue md invokerCount v.row) m.cleared
    (∀w∈ws,w.method=v.method → thunks.methods[v.method]? = some (attachThunk g w.thunk.va m')) ∧
    (v.method ∉ ws.map (·.method) → thunks.methods[v.method]? = some m'):=by
  intro m'
  have hfst : (vs.map (InvokerVisit.update g md invokerCount invPtrs)).map Prod.fst =
      vs.map (·.method):=by
    rw [List.map_map]
    rfl
  have hfst' : (ws.map (ThunkVisit.update g)).map Prod.fst=ws.map (·.method):=by
    rw [List.map_map]
    rfl
  have hupdate : (v.method,attachInvoker g invPtrs (rowValue md invokerCount v.row)) ∈
      vs.map (InvokerVisit.update g md invokerCount invPtrs):=List.mem_map.mpr ⟨v,hv,rfl⟩
  have hinv : inv.methods[v.method]? = some m':=by
    rw [hvs.methods,getElem?_updates (hfst▸howners.nodup_iff.mpr nodup_range) hupdate,
      getElem?_map,hm]
    rfl
  constructor
  · intro w hw heq
    have hmem : (v.method,attachThunk g w.thunk.va)∈ws.map (ThunkVisit.update g):=
      List.mem_map.mpr ⟨w,hw,by rw [ThunkVisit.update,heq]⟩
    rw [hws.written,getElem?_updates (hfst'▸hws.nodup) hmem,hinv]
    rfl
  · intro hnot
    rw [hws.written,getElem?_updates_of_not_mem (hfst'▸hnot),hinv]

def InvokerVisit.invokerRow (md : Metadata) (invokerCount : ℕ) (v : InvokerVisit) : InvokerRow :=
  ⟨v.image,v.rid,rowValue md invokerCount v.row⟩

theorem walked_read {u':UnityInfo} (hvs:Invoked g md invokerCount invPtrs
      {methods:=u.methods.map UnityMethodInfo.cleared} inv vs)
    (hplaces:Visits u.methods md.invokerIndicesV108.count md.images vs)
    (howners:(vs.map (·.method)).Perm (List.range u.methods.length))
    (hws:Thunked g u.methods {methods:=inv.methods} thunks ws)
    (hmethods:u'.methods=thunks.methods) :
    Read u u' g.imageBase (pointerAt g invPtrs) (md.images.map (·.name))
      (vs.map fun v=>(v.method,v.invokerRow md invokerCount))
      (ws.map fun w=>(w.method,w.thunk)):=by
  have hfst : (vs.map fun v=>(v.method,v.invokerRow md invokerCount)).map Prod.fst =
      vs.map (·.method):=List.map_map
  have hfst' : (ws.map fun w=>(w.method,w.thunk)).map Prod.fst = ws.map (·.method):=List.map_map
  refine ⟨hfst▸howners,hfst'▸hws.nodup,?_,?_,?_,?_,?_⟩
  · rw [hmethods,hws.length,hvs.methods,length_updates,length_map]
  · intro name hname
    obtain ⟨im,him,rfl⟩:=List.mem_map.mp hname
    exact hplaces.dense im him
  · refine forall_mem_map.mpr fun v hv=>?_
    obtain ⟨im,him,-,m,hvname,-,-,-,hm,hmname,hrid⟩:=hplaces.place v hv
    refine ⟨m,hm,hmname.trans hvname.symm,hrid,?_⟩
    change v.image∈md.images.map (·.name)
    rw [hvname]
    exact mem_map_of_mem him
  · exact forall_mem_map.mpr hws.place
  · refine forall_mem_map.mpr fun v hv m hm=>?_
    obtain ⟨hwith,hwithout⟩:=walked_method hvs howners hws hv hm
    obtain ⟨hname,htoken⟩:=attachInvoker_same g invPtrs (rowValue md invokerCount v.row) m
    rw [hmethods,hfst']
    by_cases hmem : v.method∈ws.map (·.method)
    · obtain ⟨w,hw,heq⟩:=List.mem_map.mp hmem
      refine ⟨_,hwith w hw heq,hname,htoken,(hasInvoker_attach m).attachThunk,?_,
        fun hnot=>absurd hmem hnot⟩
      refine forall_mem_map.mpr fun w' hw' heq'=>?_
      have hsame:=(hwith w hw heq).symm.trans (hwith w' hw' heq')
      rw [some.injEq] at hsame
      rw [hsame]
      exact hasThunk_attach
    · refine ⟨_,hwithout hmem,hname,htoken,hasInvoker_attach m,?_,fun _=>hasThunk_none m⟩
      refine forall_mem_map.mpr fun w hw heq=>?_
      exact absurd (List.mem_map.mpr ⟨w,hw,heq⟩) hmem

theorem hasStatic_attach {cctors:List UnityMethodInfo} (h:cctors.length≤1)
    (t:UnityTypeInfo) : HasStatic (some cctors) (attachStatic cctors t.cleared):=by
  cases cctors with
  | nil=>exact ⟨rfl,rfl,rfl,rfl⟩
  | cons c cs=>
    cases cs with
    | nil=>exact ⟨rfl,rfl,rfl,rfl⟩
    | cons d cs=>simp at h

theorem hasStatic_none (t:UnityTypeInfo) : HasStatic none t.cleared:=⟨rfl,rfl,rfl,rfl⟩

theorem walked_statics {u':UnityInfo} {statics:StaticWalk} {xs:List StaticVisit}
    (hxs:Listed md u.methods {types:=u.types.map UnityTypeInfo.cleared} statics xs)
    (hread:xs.map (fun x=>(x.image,x.row)) = md.images.flatMap staticRowsOf)
    (hrows:(xs.map (·.row)).Perm (List.range md.staticCtorTypesV108.count))
    (hnodup:(xs.map (·.type)).Nodup) (htypes:u'.types=statics.types)
    (htotal:u'.staticInitTypeCount=statics.total)
    (hcctor:u'.staticInitWithCctorCount=statics.withCctor) :
    StaticsListed md u.methods u':=by
  have hfst : (xs.map (StaticVisit.update md u.methods)).map Prod.fst=xs.map (·.type):=by
    rw [List.map_map]
    rfl
  have hvisit : ∀x∈xs,∃t,u'.types[x.type]? = some t ∧ t.index=staticType md x.row ∧
      t.imageIndex=some x.image.index ∧ (cctorsOf u.methods t.index).length≤1 ∧
      HasStatic (some (cctorsOf u.methods t.index)) t:=by
    intro x hx
    obtain ⟨hkey,hone⟩:=hxs.place x hx
    rw [List.map_map,getElem?_map,map_eq_some_iff] at hkey
    obtain ⟨t,ht,hkey⟩:=hkey
    have hupdate : (x.type,attachStatic (cctorsOf u.methods (staticType md x.row))) ∈
        xs.map (StaticVisit.update md u.methods):=List.mem_map.mpr ⟨x,hx,rfl⟩
    have hindex : (attachStatic (cctorsOf u.methods (staticType md x.row)) t.cleared).index =
        staticType md x.row:=
      (congrArg Prod.fst (typeKey_attachStatic _ _)).trans (congrArg Prod.fst hkey)
    refine ⟨attachStatic (cctorsOf u.methods (staticType md x.row)) t.cleared,?_,hindex,
      (congrArg Prod.snd (typeKey_attachStatic _ _)).trans (congrArg Prod.snd hkey),?_,?_⟩
    · rw [htypes,hxs.written,getElem?_updates (hfst▸hnodup) hupdate,getElem?_map,ht]
      rfl
    · rwa [hindex]
    · rw [hindex]
      exact hasStatic_attach hone t
  have hothers : ∀i t,u'.types[i]? = some t → i ∉ xs.map (·.type) → HasStatic none t:=by
    intro i t ht hnot
    rw [htypes,hxs.written,getElem?_updates_of_not_mem (hfst▸hnot),getElem?_map,
      map_eq_some_iff] at ht
    obtain ⟨t₀,-,rfl⟩:=ht
    exact hasStatic_none t₀
  have hbound : ∀i∈xs.map (·.type),i<u'.types.length:=by
    intro i hi
    obtain ⟨x,hx,rfl⟩:=List.mem_map.mp hi
    obtain ⟨t,ht,-⟩:=hvisit x hx
    exact (List.getElem?_eq_some_iff.mp ht).1
  refine ⟨?_,⟨xs.map (·.type),hnodup,?_,hothers⟩,?_,?_⟩
  · rw [← hread,List.map_map]
    exact hrows
  · rw [← hread,forall₂_map_left_iff,forall₂_map_right_iff,forall₂_same]
    exact hvisit
  · rw [htotal,hxs.total,Nat.zero_add,countP_some_owners hnodup hbound
      fun i t ht hnot=>(hothers i t ht hnot).1,countP_map]
    refine (countP_eq_length.mpr fun x hx=>?_).symm
    obtain ⟨t,ht,-,-,-,hlisted,-⟩:=hvisit x hx
    rw [Function.comp_apply,ht]
    exact hlisted
  · rw [hcctor,hxs.withCctor,Nat.zero_add,countP_some_owners hnodup hbound
      fun i t ht hnot=>(hothers i t ht hnot).2.1,countP_map]
    refine countP_congr fun x hx=>?_
    obtain ⟨t,ht,hindex,-,-,-,hresolved,-⟩:=hvisit x hx
    rw [Function.comp_apply,ht,any_some,hresolved,hindex]
    rfl

end

/-- The tables that a resolved attempt of v108 has read, and what it says of them. -/
def ResolvedV108 (g : Game) (md : Metadata) (moduleListVa : UInt64) (moduleCount : ℕ)
    (u u' : UnityInfo) : Prop :=
  ∃ invokerCount invPtrs mlo, ∃ vs : List InvokerVisit,
    geometryV108 u g md moduleCount = .ok (invokerCount,invPtrs) ∧
    g.vaoff moduleListVa = some mlo ∧
    (vs.map (·.row)).Perm (List.range md.invokerIndicesV108.count) ∧
    (∀ v∈vs, ∃ im∈md.images, ∃ start, v.image=im.name ∧ im.invokerStart = some start ∧
      v.row + 1 = start+v.rid) ∧
    ((md.images.map (·.name)).Nodup →
      Dispatched g.imageBase (pointerAt g invPtrs) (md.images.map (·.name))
        (vs.map (InvokerVisit.invokerRow md invokerCount))
        ((List.range moduleCount).flatMap (thunksV108 g mlo)) u') ∧
    StaticsListed md u.methods u'

def dispatchCounts (u : UnityInfo) : List ℕ :=
  [u.methodDispatchMethodCount,u.methodInvokerResolvedCount,u.methodInvokerMissingCount,
    u.methodAdjustorCount,u.staticInitTypeCount,u.staticInitWithCctorCount]

/-- An attempt that is not resolved reports no new count, and before the walk begins nothing is
written. -/
structure FailedV108 (g : Game) (md : Option Metadata) (moduleCount : ℕ) (u u' : UnityInfo) :
    Prop where
  state : u'.methodDispatchState ≠ "RESOLVED"
  counts : dispatchCounts u' = dispatchCounts u
  unwritten : (∀ md', md = some md' → ∀ out, geometryV108 u g md' moduleCount ≠ .ok out) →
    u'.methods = u.methods ∧ u'.types=u.types

section
variable (u : UnityInfo) (g : Game) (md : Option Metadata) (moduleListVa : UInt64)
  (moduleCount : ℕ)

/-- How an attempt of v108 ends. -/
theorem resolveMethodDispatchV108_cases :
    FailedV108 g md moduleCount u (resolveMethodDispatchV108 u g md moduleListVa moduleCount) ∨
    ∃md' invokerCount invPtrs inv thunks statics,md=some md' ∧
      geometryV108 u g md' moduleCount=.ok (invokerCount,invPtrs) ∧
      walkInvokers g md' u invokerCount invPtrs=.ok inv ∧
      walkThunks g md' u moduleListVa moduleCount inv.methods=.ok thunks ∧
      walkStatics md' u=.ok statics ∧
      resolveMethodDispatchV108 u g md moduleListVa moduleCount = { u with
        methods:=thunks.methods,types:=statics.types,methodDispatchMethodCount:=u.methods.length
        methodInvokerResolvedCount:=inv.resolved,methodInvokerMissingCount:=inv.missing
        methodAdjustorCount:=thunks.adjustors,staticInitTypeCount:=statics.total
        staticInitWithCctorCount:=statics.withCctor
        methodDispatchProfile := "v108-image-invoker+token-adjustor+static-init"
        methodDispatchState := "RESOLVED",methodDispatchError := ""
        methodDispatchResolved:=true }:=by
  have hfailed : "FAILED" ≠ "RESOLVED" := by decide
  have hinapplicable : "NOT_APPLICABLE" ≠ "RESOLVED" := by decide
  have hunavailable : "DEPENDENCY_UNAVAILABLE" ≠ "RESOLVED" := by decide
  unfold resolveMethodDispatchV108
  split
  · exact .inl ⟨hinapplicable,rfl,fun _=>⟨rfl,rfl⟩⟩
  split
  · exact .inl ⟨hunavailable,rfl,fun _=>⟨rfl,rfl⟩⟩
  split
  · exact .inl ⟨hfailed,rfl,fun _=>⟨rfl,rfl⟩⟩
  rename_i md'
  split
  · exact .inl ⟨hfailed,rfl,fun _=>⟨rfl,rfl⟩⟩
  rename_i invokerCount invPtrs hgeometry
  split
  · exact .inl ⟨hfailed,rfl,fun hnone=>absurd hgeometry (hnone md' rfl _)⟩
  rename_i inv hinv
  split
  · exact .inl ⟨hfailed,rfl,fun hnone=>absurd hgeometry (hnone md' rfl _)⟩
  rename_i thunks hthunks
  split
  · exact .inl ⟨hfailed,rfl,fun hnone=>absurd hgeometry (hnone md' rfl _)⟩
  rename_i statics hstatics
  exact .inr ⟨md',invokerCount,invPtrs,inv,thunks,statics,rfl,hgeometry,hinv,hthunks, hstatics,rfl⟩

theorem geometryV108_count {u:UnityInfo} {g:Game} {md:Metadata} {moduleCount:ℕ}
    {out:ℕ×ℕ} (h:geometryV108 u g md moduleCount=.ok out) :
    md.invokerIndicesV108.count=u.metadataMethodDefinitionCount:=by
  unfold geometryV108 at h
  split at h
  · cases h
  split at h
  · cases h
  dsimp only at h
  split at h
  · cases h
  split at h
  · cases h
  split at h
  · cases h
  split at h
  · cases h
  rename_i hgeometry
  rw [not_or,not_not,not_not] at hgeometry
  exact hgeometry.1

theorem resolveMethodDispatchV108_spec :
    ((resolveMethodDispatchV108 u g md moduleListVa moduleCount).methodDispatchState = "RESOLVED" ∧
      ∃md',md=some md' ∧ ResolvedV108 g md' moduleListVa moduleCount u
        (resolveMethodDispatchV108 u g md moduleListVa moduleCount)) ∨
    FailedV108 g md moduleCount u (resolveMethodDispatchV108 u g md moduleListVa moduleCount):=by
  obtain hfailed | ⟨md',invokerCount,invPtrs,inv,thunks,statics,hmd,hgeometry,hinv,
    hthunks,hstatics,hresult⟩:=resolveMethodDispatchV108_cases u g md moduleListVa moduleCount
  · exact .inr hfailed
  · left
    rw [hresult]
    refine ⟨rfl,md',hmd,?_⟩
    have hcount:=geometryV108_count hgeometry
    obtain ⟨vs,hvs,hplaces,hrows,howners⟩:=walkInvokers_visits hinv hcount
    have hlength : inv.methods.length=u.methods.length:=by
      rw [hvs.methods,length_updates,length_map]
    obtain ⟨mlo,ws,hmlo,hws,hread⟩:=walkThunks_thunked hlength hthunks
    obtain ⟨xs,hxs,hxread,hxrows,hxnodup⟩:=walkStatics_listed hstatics
    refine ⟨invokerCount,invPtrs,mlo,vs,hgeometry,hmlo,hrows,fun v hv=>?_,
      fun hnames=>?_,walked_statics hxs hxread hxrows hxnodup rfl rfl rfl⟩
    · obtain ⟨im,him,start,-,hname,hstart,hrow,-⟩:=hplaces.place v hv
      exact ⟨im,him,start,hname,hstart,hrow⟩
    · rw [← hresult]
      have hmethods:=congrArg UnityInfo.methods hresult
      have hcounts : Counted u (resolveMethodDispatchV108 u g md moduleListVa moduleCount)
          (vs.map fun v=>(v.method,v.invokerRow md' invokerCount))
          (ws.map fun w=>(w.method,w.thunk)):=by
        rw [hresult]
        refine ⟨rfl,?_,?_,?_⟩
        · rw [countP_map]
          exact hvs.resolved.trans (Nat.zero_add _)
        · rw [countP_map]
          exact hvs.missing.trans (Nat.zero_add _)
        · rw [length_map]
          exact hws.adjustors.trans (Nat.zero_add _)
      have hdispatched:=(walked_read hvs hplaces (howners hnames) hws hmethods).dispatched hcounts
      rw [List.map_map,List.map_map] at hdispatched
      rw [← hread]
      exact hdispatched

end

end AutoRefirst.MethodDispatch
