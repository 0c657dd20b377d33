import AutoRefirst.MethodDispatch

/-!
# The walks of v108

What a walk over the images or the modules has written when it comes to its end: one update for
each row that was read, and no place is updated twice.
-/

namespace AutoRefirst.MethodDispatch
open List Option

open Fallible

theorem mem_groupOf {methods:List UnityMethodInfo} {image:String} {i:ℕ} :
    i∈groupOf methods image ↔ ∃m,methods[i]? = some m ∧ m.imageName=image:=by
  rw [groupOf,mem_filter,mem_range]
  constructor
  · rintro ⟨hi,h⟩
    rw [getElem?_eq_getElem hi] at h ⊢
    exact ⟨_,rfl,by simpa using h⟩
  · rintro ⟨m,hm,rfl⟩
    refine ⟨(List.getElem?_eq_some_iff.mp hm).1,?_⟩
    rw [hm]
    simp

theorem nodup_groupOf (methods:List UnityMethodInfo) (image:String) :
    (groupOf methods image).Nodup:=nodup_range.filter _

theorem nodup_groups (methods:List UnityMethodInfo) {names:List String}
    (h:names.Nodup) : (names.flatMap (groupOf methods)).Nodup:=by
  refine nodup_flatMap.mpr ⟨fun name _=>nodup_groupOf methods name,?_⟩
  refine h.imp fun hne i hi hj=>?_
  obtain ⟨m,hm,rfl⟩:=mem_groupOf.mp hi
  obtain ⟨m',hm',rfl⟩:=mem_groupOf.mp hj
  rw [hm] at hm'
  cases hm'
  exact hne rfl

theorem groups_perm {methods:List UnityMethodInfo} {names:List String} (h:names.Nodup)
    (hlength:(names.flatMap (groupOf methods)).length=methods.length) :
    (names.flatMap (groupOf methods)).Perm (List.range methods.length):=by
  refine (List.Nodup.subperm (nodup_groups methods h) fun i hi=>?_).perm_of_length_le ?_
  · obtain ⟨name,-,hi⟩:=mem_flatMap.mp hi
    obtain ⟨m,hm,-⟩:=mem_groupOf.mp hi
    exact mem_range.mpr (List.getElem?_eq_some_iff.mp hm).1
  · rw [length_range,hlength]

section
variable (g : Game) (md : Metadata) (invokerCount invPtrs : ℕ)

def rowValue (row : ℕ) : Option ℕ :=
  let ii := rowIndex md md.invokerIndicesV108 (iw invokerCount) row
  if isnull ii (iw invokerCount) then none else some ii

def pointerAt (ii : ℕ) : UInt64 := q64 g.bytes (invPtrs+ii*8)

def attachInvoker (value : Option ℕ) (m : UnityMethodInfo) : UnityMethodInfo :=
  match value with
  | none => m
  | some ii => { m with
      invokerIndex:=some ii,invokerPointerVa:=pointerAt g invPtrs ii
      invokerRva:=pointerAt g invPtrs ii - g.imageBase,invokerResolved:=true }

/-- A row that was read for a method. -/
structure InvokerVisit where
  image : String
  (rid row method : ℕ)

def InvokerVisit.update (v : InvokerVisit) : ℕ×(UnityMethodInfo → UnityMethodInfo) :=
  (v.method,attachInvoker g invPtrs (rowValue md invokerCount v.row))

/-- The walk from one state to another read these rows. -/
structure Invoked (s s' : InvokerWalk) (vs : List InvokerVisit) : Prop where
  methods : s'.methods=updates (vs.map (InvokerVisit.update g md invokerCount invPtrs)) s.methods
  rows : s'.rows=s.rows++vs.map (·.row)
  nodup : s.rows.Nodup → s'.rows.Nodup
  resolved : s'.resolved = s.resolved +
    vs.countP fun v => (rowValue md invokerCount v.row).isSome
  missing : s'.missing = s.missing +
    vs.countP fun v => !(rowValue md invokerCount v.row).isSome

end

section
variable {g : Game} {md : Metadata} {invokerCount invPtrs : ℕ} {s s' s'' : InvokerWalk}

theorem Invoked.nil : Invoked g md invokerCount invPtrs s s []:=⟨rfl,by simp,id,rfl,rfl⟩

theorem Invoked.append {vs ws:List InvokerVisit} (h:Invoked g md invokerCount invPtrs s s' vs)
    (h':Invoked g md invokerCount invPtrs s' s'' ws) :
    Invoked g md invokerCount invPtrs s s'' (vs++ws):=by
  refine ⟨?_,?_,fun hs=>h'.nodup (h.nodup hs),?_,?_⟩
  · rw [h'.methods,h.methods,map_append,updates_append]
  · rw [h'.rows,h.rows,map_append,append_assoc]
  · rw [h'.resolved,h.resolved,countP_append,Nat.add_assoc]
  · rw [h'.missing,h.missing,countP_append,Nat.add_assoc]

theorem invokerRow_invoked {x:ℕ×ℕ} (image:String) (r:ℕ)
    (h:invokerRow g md invokerCount invPtrs s x=.ok s') :
    Invoked g md invokerCount invPtrs s s' [⟨image,r,x.2,x.1⟩]:=by
  obtain ⟨m,gi⟩:=x
  have hnodup : gi ∉ s.rows → s.rows.Nodup → (s.rows++[gi]).Nodup:=by
    intro hgi hs
    exact nodup_append.mpr ⟨hs,nodup_singleton gi,by
      rintro a ha b hb rfl
      exact hgi (mem_singleton.mp hb▸ha)⟩
  rw [invokerRow] at h
  dsimp only at h
  split at h
  · cases h
  · rename_i hgi
    split at h
    · rename_i hnull
      cases h
      have hvalue : rowValue md invokerCount gi=none:=if_pos hnull
      refine ⟨?_,rfl,hnodup hgi,?_,?_⟩
      · simp only [map_cons,map_nil,InvokerVisit.update,hvalue,updates,
          foldl_cons,foldl_nil]
        exact (modify_id _ _).symm
      · simp [hvalue]
      · simp [hvalue]
    · rename_i hnull
      split at h
      · cases h
      · split at h
        · cases h
        · cases h
          have hvalue : rowValue md invokerCount gi=some _:=if_neg hnull
          refine ⟨?_,rfl,hnodup hgi,?_,?_⟩
          · simp only [map_cons,map_nil,InvokerVisit.update,hvalue,updates,
              foldl_cons,foldl_nil]
            rfl
          · simp [hvalue]
          · simp [hvalue]

theorem rows_invoked (image:String) (r:ℕ×ℕ → ℕ) (xs:List (ℕ×ℕ))
    (h:xs.foldlM (invokerRow g md invokerCount invPtrs) s=.ok s') :
    Invoked g md invokerCount invPtrs s s' (xs.map fun x=>⟨image,r x,x.2,x.1⟩):=by
  induction xs generalizing s with
  | nil=>
    cases h
    exact .nil
  | cons x xs ih=>
    rw [foldlM_cons,bind_eq_ok] at h
    obtain ⟨s₁,hrow,h⟩:=h
    exact (invokerRow_invoked image (r x) hrow).append (ih h)

end

/-- The rows that were read, where each is the row of a method of one of the images. -/
structure Visits (methods : List UnityMethodInfo) (count : ℕ) (images : List ImageRec)
    (vs : List InvokerVisit) : Prop where
  place : ∀ v∈vs, ∃ im∈images, ∃ start m, v.image=im.name ∧ im.invokerStart = some start ∧
    v.row + 1 = start+v.rid ∧ v.row<count ∧ methods[v.method]? = some m ∧
    m.imageName = im.name ∧ rid m.token = v.rid
  owners : (vs.map (·.method)).Perm (images.flatMap fun im => groupOf methods im.name)
  dense : ∀ im∈images, ((groupOf methods im.name).map fun i => rid (tokenOf methods i)).Perm
    (range' 1 (groupOf methods im.name).length)

section
variable {g : Game} {md : Metadata} {methods : List UnityMethodInfo} {invokerCount invPtrs : ℕ}
  {s s' : InvokerWalk}

theorem Visits.append {count:ℕ} {images images':List ImageRec} {vs ws:List InvokerVisit}
    (h:Visits methods count images vs) (h':Visits methods count images' ws) :
    Visits methods count (images++images') (vs++ws):=by
  refine ⟨fun v hv=>?_,?_,fun im him=>?_⟩
  · rcases mem_append.mp hv with hv | hv
    · obtain ⟨im,him,hplace⟩:=h.place v hv
      exact ⟨im,mem_append_left _ him,hplace⟩
    · obtain ⟨im,him,hplace⟩:=h'.place v hv
      exact ⟨im,mem_append_right _ him,hplace⟩
  · rw [map_append,flatMap_append]
    exact h.owners.append h'.owners
  · rcases mem_append.mp him with him | him
    · exact h.dense im him
    · exact h'.dense im him

/-- A list whose members have the row ids of their places. -/
theorem rids_eq {ms:List ℕ} {tokens:ℕ→ℕ} (h:∀k i,ms[k]? = some i → rid (tokens i) = k+1) :
    ms.map (fun i=>rid (tokens i)) = range' 1 ms.length:=by
  apply ext_getElem?
  intro k
  rw [getElem?_map]
  cases hk : ms[k]? with
  | none=>
    rw [map_none,eq_comm,getElem?_eq_none_iff,length_range']
    exact getElem?_eq_none_iff.mp hk
  | some i=>
    have hlt : k < ms.length:=(List.getElem?_eq_some_iff.mp hk).1
    rw [map_some,h k i hk,getElem?_range' hlt,Nat.one_mul,Nat.add_comm]

theorem imageInvokers_visits {im:ImageRec}
    (h:imageInvokers g md methods invokerCount invPtrs s im=.ok s') :
    ∃vs,Invoked g md invokerCount invPtrs s s' vs ∧
      Visits methods md.invokerIndicesV108.count [im] vs:=by
  rw [imageInvokers] at h
  dsimp only at h
  split at h
  · cases h
  split at h
  · cases h
  rename_i slots hslots
  split at h
  · cases h
  rename_i hbound
  rw [not_or,Bool.not_eq_true,isNone_eq_false_iff,isSome_iff_exists] at hbound
  obtain ⟨⟨start,hstart⟩,hle⟩:=hbound
  obtain ⟨ms,rfl,hperm,hrid⟩:=slotsOf_eq_ok (nodup_groupOf methods im.name) hslots
  rw [hstart,getD_some,length_map,not_lt] at hle
  have hms : (ms.map some).filterMap id=ms:=by
    rw [filterMap_map]
    exact filterMap_some
  rw [hstart,getD_some,hms] at h
  refine ⟨_,rows_invoked im.name (fun x=>x.2-start+1) _ h,fun v hv=>?_,?_,?_⟩
  · obtain ⟨⟨i,row⟩,hx,rfl⟩:=mem_map.mp hv
    obtain ⟨hge,hget⟩:=mem_zipIdx_iff_le_and_getElem?_sub.mp hx
    dsimp only at hge hget ⊢
    have hlt : row-start < ms.length:=(List.getElem?_eq_some_iff.mp hget).1
    obtain ⟨m,hm,hname⟩:=mem_groupOf.mp (hperm.mem_iff.mp (mem_of_getElem? hget))
    have hr:=hrid _ _ hget
    rw [tokenOf,hm] at hr
    exact ⟨im,mem_singleton_self _,start,m,rfl,hstart,by omega,by omega,hm,hname,hr⟩
  · rw [List.map_map,flatMap_singleton]
    have hmap : (ms.zipIdx start).map ((fun v:InvokerVisit=>v.method) ∘ fun x=>
        ⟨im.name,x.2-start+1,x.2,x.1⟩) = ms:=zipIdx_map_fst start ms
    rw [hmap]
    exact hperm
  · intro im' him'
    obtain rfl:=mem_singleton.mp him'
    rw [← hperm.length_eq,← rids_eq hrid]
    exact (hperm.map _).symm

theorem images_visits (images:List ImageRec)
    (h:images.foldlM (imageInvokers g md methods invokerCount invPtrs) s=.ok s') :
    ∃vs,Invoked g md invokerCount invPtrs s s' vs ∧
      Visits methods md.invokerIndicesV108.count images vs:=by
  induction images generalizing s with
  | nil=>
    cases h
    exact ⟨[],.nil,fun _ hv=>absurd hv not_mem_nil,.nil,fun _ hv=>absurd hv not_mem_nil⟩
  | cons im images ih=>
    rw [foldlM_cons,bind_eq_ok] at h
    obtain ⟨s₁,him,h⟩:=h
    obtain ⟨vs,hvs,hplace⟩:=imageInvokers_visits him
    obtain ⟨ws,hws,hplaces⟩:=ih h
    exact ⟨vs++ws,hvs.append hws,hplace.append hplaces⟩

/-- The whole walk: every row and, where the image names differ, every method is visited once. -/
theorem walkInvokers_visits {u:UnityInfo} (h:walkInvokers g md u invokerCount invPtrs=.ok s')
    (hcount:md.invokerIndicesV108.count=u.metadataMethodDefinitionCount) :
    ∃vs,Invoked g md invokerCount invPtrs {methods:=u.methods.map UnityMethodInfo.cleared} s' vs ∧
      Visits u.methods md.invokerIndicesV108.count md.images vs ∧
      (vs.map (·.row)).Perm (List.range md.invokerIndicesV108.count) ∧
      ((md.images.map (·.name)).Nodup →
        (vs.map (·.method)).Perm (List.range u.methods.length)):=by
  rw [walkInvokers] at h
  split at h
  · cases h
  rename_i hlength
  rw [not_not] at hlength
  obtain ⟨s,hs,h⟩:=bind_eq_ok.mp h
  split at h
  · cases h
  rename_i hcover
  rw [not_not] at hcover
  cases h
  obtain ⟨vs,hvs,hplaces⟩:=images_visits _ hs
  have hrows:=hvs.rows
  have hnodup:=hvs.nodup nodup_nil
  rw [nil_append] at hrows
  rw [hrows] at hnodup hcover
  have hperm : (vs.map (·.row)).Perm (List.range md.invokerIndicesV108.count):=by
    refine (perm_ext_iff_of_nodup hnodup nodup_range).mpr fun row=>?_
    rw [mem_range]
    refine ⟨fun hrow=>?_,hcover row⟩
    obtain ⟨v,hv,rfl⟩:=mem_map.mp hrow
    obtain ⟨-,-,-,-,-,-,-,hlt,-⟩:=hplaces.place v hv
    exact hlt
  refine ⟨vs,hvs,hplaces,hperm,fun hnames=>?_⟩
  have hgroups : (md.images.flatMap fun im=>groupOf u.methods im.name) =
      (md.images.map (·.name)).flatMap (groupOf u.methods):=by
    rw [flatMap_map]
  refine hplaces.owners.trans ?_
  rw [hgroups]
  apply groups_perm hnames
  have hlen:=hplaces.owners.length_eq
  have hlen':=hperm.length_eq
  rw [hgroups,length_map] at hlen
  rw [length_map,length_range] at hlen'
  rw [← hlen,hlen',hcount,hlength]

end

/-- A pair of the adjustor table of a module. -/
structure Thunk where
  image : String
  token : ℕ
  va : UInt64

structure ThunkVisit where
  thunk : Thunk
  method : ℕ

section
variable (g : Game)

def thunkAt (name : String) (ao j : ℕ) : Thunk :=
  ⟨name,u32 g.bytes (ao+j*16),q64 g.bytes (ao+j*16+8)⟩

/-- The adjustor table of a module. -/
def thunksV108 (mlo mi : ℕ) : List Thunk :=
  match g.vaoff (q64 g.bytes (mlo+mi*8)) with
  | none => []
  | some mo =>
    match g.vaoff (q64 g.bytes (mo+0x20)) with
    | none => []
    | some ao => (List.range (u32 g.bytes (mo+0x18))).map
        (thunkAt g (g.vaString (q64 g.bytes mo)) ao)

def attachThunk (va : UInt64) (m : UnityMethodInfo) : UnityMethodInfo :=
  { m with
    adjustorThunkVa:=va,adjustorThunkRva:=va-g.imageBase,adjustorThunkResolved:=true }

def ThunkVisit.update (v : ThunkVisit) : ℕ×(UnityMethodInfo → UnityMethodInfo) :=
  (v.method,attachThunk g v.thunk.va)

structure Thunked (methods : List UnityMethodInfo) (s s' : ThunkWalk) (vs : List ThunkVisit) :
    Prop where
  written : s'.methods=updates (vs.map (ThunkVisit.update g)) s.methods
  adjustors : s'.adjustors=s.adjustors+vs.length
  place : ∀ v∈vs, ∃ m, methods[v.method]? = some m ∧ m.imageName=v.thunk.image ∧
    m.token = v.thunk.token
  nodup : (vs.map (·.method)).Nodup
  fresh : ∀ v∈vs, s.methods[v.method]?.any (·.adjustorThunkResolved) = false

end

section
variable {g : Game} {methods : List UnityMethodInfo} {s s' s'' : ThunkWalk}

theorem Thunked.nil : Thunked g methods s s []:=
  ⟨rfl,rfl,fun _ hv=>absurd hv not_mem_nil,nodup_nil,fun _ hv=>absurd hv not_mem_nil⟩

theorem Thunked.append {vs ws:List ThunkVisit} (h:Thunked g methods s s' vs)
    (h':Thunked g methods s' s'' ws) (hlength:s.methods.length=methods.length) :
    Thunked g methods s s'' (vs++ws):=by
  have hfst : (vs.map (ThunkVisit.update g)).map Prod.fst=vs.map (·.method):=by
    rw [List.map_map]
    rfl
  -- a method that has its thunk keeps it, so a later thunk is for another
  have hother : ∀w∈ws,w.method ∉ vs.map (·.method):=by
    intro w hw hmem
    obtain ⟨v,hv,heq⟩:=mem_map.mp hmem
    have hfresh:=h'.fresh w hw
    obtain ⟨m,hm,-⟩:=h'.place w hw
    have hlt : w.method<s.methods.length:=by
      rw [hlength]
      exact (List.getElem?_eq_some_iff.mp hm).1
    have hupdate : (w.method,attachThunk g v.thunk.va)∈vs.map (ThunkVisit.update g):=
      mem_map.mpr ⟨v,hv,by rw [ThunkVisit.update,heq]⟩
    rw [h.written,getElem?_updates (hfst▸h.nodup) hupdate,getElem?_eq_getElem hlt] at hfresh
    cases hfresh
  refine ⟨?_,?_,fun v hv=>?_,?_,fun v hv=>?_⟩
  · rw [h'.written,h.written,map_append,updates_append]
  · rw [h'.adjustors,h.adjustors,length_append,Nat.add_assoc]
  · rcases mem_append.mp hv with hv | hv
    · exact h.place v hv
    · exact h'.place v hv
  · rw [map_append]
    refine nodup_append.mpr ⟨h.nodup,h'.nodup,?_⟩
    rintro i hi j hj rfl
    obtain ⟨w,hw,rfl⟩:=mem_map.mp hj
    exact hother w hw hi
  · rcases mem_append.mp hv with hv | hv
    · exact h.fresh v hv
    · have hfresh:=h'.fresh v hv
      rwa [h.written,getElem?_updates_of_not_mem (hfst▸hother v hv)] at hfresh

theorem Thunked.length {vs:List ThunkVisit} (h:Thunked g methods s s' vs) :
    s'.methods.length=s.methods.length:=by
  rw [h.written,length_updates]

theorem thunkRow_thunked {name:String} {ao j:ℕ} (h:thunkRow g methods name ao s j=.ok s') :
    ∃i,Thunked g methods s s' [⟨thunkAt g name ao j,i⟩]:=by
  rw [thunkRow] at h
  split at h
  · cases h
  split at h
  · cases h
  split at h
  · cases h
  rename_i i howner
  split at h
  · cases h
  split at h
  · cases h
  rename_i hfree
  cases h
  have hfound:=find?_some howner
  have hlt : i < methods.length:=by
    have hmem:=mem_of_find?_eq_some howner
    rwa [mem_reverse,mem_range] at hmem
  rw [getElem?_eq_getElem hlt,any_some,Bool.and_eq_true,beq_iff_eq, beq_iff_eq] at hfound
  refine ⟨i,rfl,rfl,?_,nodup_singleton i,?_⟩
  · rintro v hv
    obtain rfl:=mem_singleton.mp hv
    exact ⟨_,getElem?_eq_getElem hlt,hfound⟩
  · rintro v hv
    obtain rfl:=mem_singleton.mp hv
    exact Bool.eq_false_iff.mpr hfree

theorem thunkRows_thunked {name:String} {ao:ℕ} (js:List ℕ)
    (hlength:s.methods.length=methods.length)
    (h:js.foldlM (thunkRow g methods name ao) s=.ok s') :
    ∃vs,Thunked g methods s s' vs ∧ vs.map (·.thunk)=js.map (thunkAt g name ao):=by
  induction js generalizing s with
  | nil=>
    cases h
    exact ⟨[],.nil,rfl⟩
  | cons j js ih=>
    rw [foldlM_cons,bind_eq_ok] at h
    obtain ⟨s₁,hrow,h⟩:=h
    obtain ⟨i,hi⟩:=thunkRow_thunked hrow
    obtain ⟨vs,hvs,hmap⟩:=ih (hi.length.trans hlength) h
    refine ⟨_,hi.append hvs hlength,?_⟩
    rw [map_append,hmap]
    rfl

theorem moduleThunks_thunked {mlo mi:ℕ} (hlength:s.methods.length=methods.length)
    (h:moduleThunks g methods mlo s mi=.ok s') :
    ∃vs,Thunked g methods s s' vs ∧ vs.map (·.thunk)=thunksV108 g mlo mi:=by
  rw [moduleThunks] at h
  split at h
  · cases h
  rename_i mo hmo
  split at h
  · cases h
  dsimp only at h
  split at h
  · cases h
  split at h
  · cases h
  split at h
  · rename_i hzero
    cases h
    refine ⟨[],⟨rfl,rfl,fun _ hv=>absurd hv not_mem_nil,nodup_nil,fun _ hv=>absurd hv not_mem_nil⟩,?_⟩
    rw [thunksV108,hmo]
    dsimp only
    rw [hzero]
    split <;> rfl
  split at h
  · cases h
  split at h
  · cases h
  rename_i ao hao
  obtain ⟨vs,hvs,hmap⟩:=thunkRows_thunked _ (by exact hlength) h
  rw [thunksV108,hmo]
  dsimp only
  rw [hao]
  exact ⟨vs,⟨hvs.written,hvs.adjustors,hvs.place,hvs.nodup,hvs.fresh⟩,hmap⟩

theorem modules_thunked {mlo:ℕ} (mis:List ℕ) (hlength:s.methods.length=methods.length)
    (h:mis.foldlM (moduleThunks g methods mlo) s=.ok s') :
    ∃vs,Thunked g methods s s' vs ∧ vs.map (·.thunk)=mis.flatMap (thunksV108 g mlo):=by
  induction mis generalizing s with
  | nil=>
    cases h
    exact ⟨[],.nil,rfl⟩
  | cons mi mis ih=>
    rw [foldlM_cons,bind_eq_ok] at h
    obtain ⟨s₁,hmi,h⟩:=h
    obtain ⟨vs,hvs,hmap⟩:=moduleThunks_thunked hlength hmi
    obtain ⟨ws,hws,hmaps⟩:=ih (hvs.length.trans hlength) h
    refine ⟨_,hvs.append hws hlength,?_⟩
    rw [map_append,hmap,hmaps,flatMap_cons]

theorem walkThunks_thunked {md:Metadata} {u:UnityInfo} {moduleListVa:UInt64}
    {moduleCount:ℕ} (hlength:methods.length=u.methods.length)
    (h:walkThunks g md u moduleListVa moduleCount methods=.ok s') :
    ∃mlo vs,g.vaoff moduleListVa=some mlo ∧ Thunked g u.methods { methods } s' vs ∧
      vs.map (·.thunk)=(List.range moduleCount).flatMap (thunksV108 g mlo):=by
  rw [walkThunks] at h
  split at h
  · cases h
  rename_i mlo hmlo
  split at h
  · cases h
  obtain ⟨s,hs,h⟩:=bind_eq_ok.mp h
  split at h
  · cases h
  split at h
  · cases h
  cases h
  obtain ⟨vs,hvs,hmap⟩:=modules_thunked _ (by exact hlength) hs
  exact ⟨mlo,vs,hmlo,hvs,hmap⟩

end

/-- A static-initialiser row that was read for an image. -/
structure StaticVisit where
  image : ImageRec
  (row type : ℕ)

def staticType (md : Metadata) (row : ℕ) : ℕ :=
  rowIndex md md.staticCtorTypesV108 md.tdidx row

def attachStatic (cctors : List UnityMethodInfo) (t : UnityTypeInfo) : UnityTypeInfo :=
  match cctors with
  | [cctor] => { t with
      staticInitListed:=true,staticConstructorMethodIndex:=some cctor.index
      staticConstructorRva:=cctor.rva,staticConstructorResolved:=true }
  | _ => {t with staticInitListed:=true}

section
variable (md : Metadata) (methods : List UnityMethodInfo)

def StaticVisit.update (v : StaticVisit) : ℕ×(UnityTypeInfo → UnityTypeInfo) :=
  (v.type,attachStatic (cctorsOf methods (staticType md v.row)))

def typeKey (t : UnityTypeInfo) : ℕ×Option ℕ := (t.index,t.imageIndex)

structure Listed (s s' : StaticWalk) (vs : List StaticVisit) : Prop where
  written : s'.types=updates (vs.map (StaticVisit.update md methods)) s.types
  keys : s'.types.map typeKey = s.types.map typeKey
  rows : s'.rows=s.rows++vs.map (·.row)
  nodup : s.rows.Nodup → s'.rows.Nodup
  staticTypes : s'.staticTypes = s.staticTypes ++ vs.map fun v => staticType md v.row
  different : s.staticTypes.Nodup → s'.staticTypes.Nodup
  total : s'.total=s.total+vs.length
  withCctor : s'.withCctor = s.withCctor +
    vs.countP fun v => decide (cctorsOf methods (staticType md v.row) ≠ [])
  place : ∀ v∈vs, (s.types.map typeKey)[v.type]? =
    some (staticType md v.row,some v.image.index) ∧
    (cctorsOf methods (staticType md v.row)).length ≤ 1

end

section
variable {md : Metadata} {methods : List UnityMethodInfo} {s s' s'' : StaticWalk}

theorem Listed.nil : Listed md methods s s []:=
  ⟨rfl,rfl,by simp,id,by simp,id,rfl,rfl,fun _ hv=>absurd hv not_mem_nil⟩

theorem Listed.append {vs ws:List StaticVisit} (h:Listed md methods s s' vs)
    (h':Listed md methods s' s'' ws) : Listed md methods s s'' (vs++ws):=by
  refine ⟨?_,h'.keys.trans h.keys,?_,fun hs=>h'.nodup (h.nodup hs),?_,
    fun hs=>h'.different (h.different hs),?_,?_,fun v hv=>?_⟩
  · rw [h'.written,h.written,map_append,updates_append]
  · rw [h'.rows,h.rows,map_append,append_assoc]
  · rw [h'.staticTypes,h.staticTypes,map_append,append_assoc]
  · rw [h'.total,h.total,length_append,Nat.add_assoc]
  · rw [h'.withCctor,h.withCctor,countP_append,Nat.add_assoc]
  · rcases mem_append.mp hv with hv | hv
    · exact h.place v hv
    · rw [← h.keys]
      exact h'.place v hv

theorem typeKey_attachStatic (cctors:List UnityMethodInfo) (t:UnityTypeInfo) :
    typeKey (attachStatic cctors t)=typeKey t:=by
  unfold attachStatic
  split <;> rfl

theorem map_modify_key (i:ℕ) (f:UnityTypeInfo→UnityTypeInfo)
    (hf:∀t,typeKey (f t)=typeKey t) (l:List UnityTypeInfo) :
    (l.modify i f).map typeKey=l.map typeKey:=by
  apply ext_getElem?
  intro k
  rw [getElem?_map,getElem?_map,getElem?_modify]
  cases l[k]? with
  | none=>rfl
  | some t=>
    by_cases hk : i=k
    · simp [hk,hf]
    · simp [hk]

variable {typeCount : ℕ}

theorem staticRow_listed {im:ImageRec} {si:ℕ}
    (h:staticRow md methods typeCount im s si=.ok s') :
    ∃t,Listed md methods s s' [⟨im,si,t⟩]:=by
  have hsnoc : ∀ {l:List ℕ} {a:ℕ},a ∉ l → l.Nodup → (l++[a]).Nodup:=by
    intro l a ha hl
    exact nodup_append.mpr ⟨hl,nodup_singleton a,by
      rintro b hb c hc rfl
      exact ha (mem_singleton.mp hc▸hb)⟩
  rw [staticRow] at h
  dsimp only at h
  split at h
  · cases h
  rename_i hrow
  split at h
  · cases h
  split at h
  · cases h
  rename_i htd
  split at h
  · cases h
  rename_i t hfind
  split at h
  · cases h
  rename_i himage
  rw [not_not] at himage
  obtain ⟨hlt,hindex,-⟩:=findIdx?_eq_some_iff_getElem.mp hfind
  have hplace : (s.types.map typeKey)[t]? = some (staticType md si,some im.index):=by
    rw [getElem?_eq_getElem hlt,any_some,beq_iff_eq] at himage
    rw [getElem?_map,getElem?_eq_getElem hlt,map_some,typeKey,himage, beq_iff_eq.mp hindex]
    rfl
  refine ⟨t,?_⟩
  have hkeys:=map_modify_key t _
    (typeKey_attachStatic (cctorsOf methods (staticType md si))) s.types
  have hlisted : ∀c,cctorsOf methods (staticType md si)=c → c.length≤1 →
      s'.types=s.types.modify t (attachStatic c) → s'.rows=s.rows++[si] →
      s'.staticTypes = s.staticTypes++[staticType md si] → s'.total=s.total+1 →
      s'.withCctor = s.withCctor+(if c ≠ [] then 1 else 0) →
      Listed md methods s s' [⟨im,si,t⟩]:=by
    rintro c rfl hc htypes hrows hstatic htotal hcctor
    refine ⟨htypes,by rw [htypes,hkeys],hrows,fun hs=>hrows▸hsnoc hrow hs,hstatic,
      fun hs=>hstatic▸hsnoc htd hs,htotal,?_,?_⟩
    · rw [hcctor]
      simp [countP_cons]
    · intro v hv
      obtain rfl:=mem_singleton.mp hv
      exact ⟨hplace,hc⟩
  split at h
  · rename_i hc
    cases h
    exact hlisted [] hc (by simp) rfl rfl rfl rfl rfl
  · rename_i cctor hc
    cases h
    exact hlisted [cctor] hc (by simp) (modify_modify_eq _ _ _ _) rfl rfl rfl rfl
  · cases h

theorem staticRows_listed (im:ImageRec) (rows:List ℕ)
    (h:rows.foldlM (staticRow md methods typeCount im) s=.ok s') :
    ∃vs,Listed md methods s s' vs ∧
      vs.map (fun v=>(v.image,v.row)) = rows.map fun row=>(im,row):=by
  induction rows generalizing s with
  | nil=>
    cases h
    exact ⟨[],.nil,rfl⟩
  | cons row rows ih=>
    rw [foldlM_cons,bind_eq_ok] at h
    obtain ⟨s₁,hrow,h⟩:=h
    obtain ⟨t,ht⟩:=staticRow_listed hrow
    obtain ⟨vs,hvs,hmap⟩:=ih h
    refine ⟨_,ht.append hvs,?_⟩
    rw [map_append,hmap]
    rfl

def staticRowsOf (im : ImageRec) : List (ImageRec×ℕ) :=
  (range' (im.staticCtorStart.getD 0) im.staticCtorCount).map fun row => (im,row)

theorem imageStatics_listed {im:ImageRec} (h:imageStatics md methods typeCount s im=.ok s') :
    ∃vs,Listed md methods s s' vs ∧ vs.map (fun v=>(v.image,v.row)) = staticRowsOf im ∧
      ∀v∈vs,v.row < md.staticCtorTypesV108.count:=by
  rw [imageStatics] at h
  split at h
  · rename_i hzero
    cases h
    refine ⟨[],.nil,?_,fun _ hv=>absurd hv not_mem_nil⟩
    rw [staticRowsOf,hzero]
    rfl
  split at h
  · cases h
  rename_i hbound
  rw [not_or,not_lt] at hbound
  obtain ⟨vs,hvs,hmap⟩:=staticRows_listed im _ h
  refine ⟨vs,hvs,hmap,fun v hv=>?_⟩
  have hmem : (v.image,v.row)∈(range' (im.staticCtorStart.getD 0) im.staticCtorCount).map
      fun row=>(im,row):=hmap▸mem_map_of_mem hv
  obtain ⟨row,hrow,heq⟩:=mem_map.mp hmem
  cases heq
  have hlt:=(mem_range'_1.mp hrow).2
  omega

theorem imagesStatics_listed (images:List ImageRec)
    (h:images.foldlM (imageStatics md methods typeCount) s=.ok s') :
    ∃vs,Listed md methods s s' vs ∧ vs.map (fun v=>(v.image,v.row)) = images.flatMap staticRowsOf ∧
      ∀v∈vs,v.row < md.staticCtorTypesV108.count:=by
  induction images generalizing s with
  | nil=>
    cases h
    exact ⟨[],.nil,rfl,fun _ hv=>absurd hv not_mem_nil⟩
  | cons im images ih=>
    rw [foldlM_cons,bind_eq_ok] at h
    obtain ⟨s₁,him,h⟩:=h
    obtain ⟨vs,hvs,hmap,hlt⟩:=imageStatics_listed him
    obtain ⟨ws,hws,hmaps,hlts⟩:=ih h
    refine ⟨_,hvs.append hws,?_,fun v hv=>?_⟩
    · rw [map_append,hmap,hmaps,flatMap_cons]
    · rcases mem_append.mp hv with hv | hv
      · exact hlt v hv
      · exact hlts v hv

theorem walkStatics_listed {u:UnityInfo} (h:walkStatics md u=.ok s') :
    ∃vs,Listed md u.methods {types:=u.types.map UnityTypeInfo.cleared} s' vs ∧
      vs.map (fun v=>(v.image,v.row)) = md.images.flatMap staticRowsOf ∧
      (vs.map (·.row)).Perm (List.range md.staticCtorTypesV108.count) ∧
      (vs.map (·.type)).Nodup:=by
  rw [walkStatics] at h
  split at h
  · cases h
  obtain ⟨s,hs,h⟩:=bind_eq_ok.mp h
  split at h
  · cases h
  rename_i hcover
  rw [not_not] at hcover
  cases h
  obtain ⟨vs,hvs,hmap,hlt⟩:=imagesStatics_listed _ hs
  have hrows:=hvs.rows
  have hnodup:=hvs.nodup nodup_nil
  rw [nil_append] at hrows
  rw [hrows] at hnodup hcover
  have hdifferent:=hvs.different nodup_nil
  rw [hvs.staticTypes,nil_append] at hdifferent
  refine ⟨vs,hvs,hmap,?_,?_⟩
  · refine (perm_ext_iff_of_nodup hnodup nodup_range).mpr fun row=>?_
    rw [mem_range]
    refine ⟨fun hrow=>?_,hcover row⟩
    obtain ⟨v,hv,rfl⟩:=mem_map.mp hrow
    exact hlt v hv
  · -- types of different indexes are different
    refine List.Nodup.of_map (fun t=>(s'.types[t]?.map (·.index)).getD 0) ?_
    have heq : (vs.map (·.type)).map (fun t=>(s'.types[t]?.map (·.index)).getD 0) =
        vs.map fun v=>staticType md v.row:=by
      rw [List.map_map]
      refine map_congr_left fun v hv=>?_
      have hkey:=(hvs.place v hv).1
      rw [← hvs.keys,getElem?_map,map_eq_some_iff] at hkey
      obtain ⟨t,ht,hkey⟩:=hkey
      simp only [Function.comp_apply,ht,map_some,getD_some]
      exact congrArg Prod.fst hkey
    rw [heq]
    exact hdifferent

end

end AutoRefirst.MethodDispatch
