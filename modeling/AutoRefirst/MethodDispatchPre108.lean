import AutoRefirst.MethodDispatchContract

/-!
# Method dispatch before v108

What is collected of the modules is one note for each method and each thunk. The notes are
committed when every module has been read, so that a failure writes nothing.
-/

namespace AutoRefirst.MethodDispatch
open List Option

open Fallible

/-- What an invoker index says; -1 is a missing invoker. -/
def indexValue (ii : ℤ) : Option ℕ := if ii = -1 then none else some ii.toNat

section
variable (g : Game)

def rowsOfModule (m : DispatchModule) : List InvokerRow :=
  match rowsPre108 g m with
  | .error _ => []
  | .ok (_,rows) => rows.zipIdx.map fun x => ⟨m.name,x.2+1,indexValue x.1⟩

def thunksOfModule (m : DispatchModule) : List Thunk :=
  match adjustorsPre108 g m with
  | .error _ => []
  | .ok thunks => thunks.map fun a => ⟨m.name,a.1,a.2⟩

def invokersOfPre108 (mlo mi : ℕ) : List InvokerRow :=
  match modulePre108 g mlo mi with
  | .error _ => []
  | .ok m => rowsOfModule g m

def thunksOfPre108 (mlo mi : ℕ) : List Thunk :=
  match modulePre108 g mlo mi with
  | .error _ => []
  | .ok m => thunksOfModule g m

end

section
variable {count : ℕ} {tokens : List ℕ}

theorem validateRow_counts {s s':ℕ×ℕ} {x:(ℕ×ℤ)×ℕ} (h:validateRow count s x=.ok s') :
    (x.1.2 = -1 ∨ 0≤x.1.2) ∧ s'.1=s.1+(if (indexValue x.1.2).isSome then 1 else 0) ∧
      s'.2 = s.2+(if !(indexValue x.1.2).isSome then 1 else 0):=by
  obtain ⟨⟨token,ii⟩,i⟩:=x
  rw [validateRow] at h
  dsimp only at h ⊢
  split at h
  · cases h
  split at h
  · rename_i hmissing
    cases h
    simp [indexValue,hmissing]
  rename_i hmissing
  split at h
  · rename_i hrange
    cases h
    simp [indexValue,hmissing,hrange.1]
  · cases h

theorem validateRows_counts (xs:List ((ℕ×ℤ)×ℕ)) {s s':ℕ×ℕ}
    (h:xs.foldlM (validateRow count) s=.ok s') :
    (∀x∈xs,x.1.2 = -1 ∨ 0≤x.1.2) ∧ s'.1=s.1+xs.countP (fun x=>(indexValue x.1.2).isSome) ∧
      s'.2 = s.2+xs.countP (fun x=>!(indexValue x.1.2).isSome):=by
  induction xs generalizing s with
  | nil=>
    cases h
    exact ⟨fun x hx=>absurd hx not_mem_nil,rfl,rfl⟩
  | cons x xs ih=>
    rw [foldlM_cons,bind_eq_ok] at h
    obtain ⟨s₁,hx,h⟩:=h
    obtain ⟨hvalue,hone,hnone⟩:=validateRow_counts hx
    obtain ⟨hvalues,hones,hnones⟩:=ih h
    refine ⟨forall_mem_cons.mpr ⟨hvalue,hvalues⟩,?_,?_⟩
    · rw [hones,hone,countP_cons]
      omega
    · rw [hnones,hnone,countP_cons]
      omega

theorem validateAdjustors_owned (xs:List (ℕ×ℕ)) {prev last:ℕ}
    (h:xs.foldlM (validateAdjustor tokens) prev=.ok last) :
    ∀x∈xs,tokens[rid x.1 - 1]? = some x.1:=by
  induction xs generalizing prev with
  | nil=>exact fun x hx=>absurd hx not_mem_nil
  | cons x xs ih=>
    rw [foldlM_cons,bind_eq_ok] at h
    obtain ⟨tok,hx,h⟩:=h
    refine forall_mem_cons.mpr ⟨?_,ih h⟩
    obtain ⟨t,i⟩:=x
    rw [validateAdjustor] at hx
    dsimp only at hx ⊢
    split at hx
    · cases hx
    split at hx
    · cases hx
    split at hx
    · cases hx
    · rename_i hsame
      exact not_not.mp hsame

theorem validatePre108Tables_ok {version:ℕ} {variant:String} {pointerCount:ℕ}
    {rows:List ℤ} {adjustors:List ℕ} {out:ℕ×ℕ}
    (h:validatePre108Tables version variant tokens pointerCount rows count adjustors=.ok out) :
    pointerCount=tokens.length ∧ rows.length=tokens.length ∧
      ((tokens.zip rows).zipIdx).foldlM (validateRow count) (0,0)=.ok out ∧
      ∀t∈adjustors,tokens[rid t - 1]? = some t:=by
  unfold validatePre108Tables at h
  split at h
  · cases h
  split at h
  · cases h
  rename_i hlength
  rw [not_or,not_not,not_not] at hlength
  rw [bind_eq_ok] at h
  obtain ⟨out',hrows,h⟩:=h
  rw [bind_eq_ok] at h
  obtain ⟨last,hadjustors,h⟩:=h
  cases h
  refine ⟨hlength.1,hlength.2,hrows,fun t ht=>?_⟩
  obtain ⟨i,hi⟩:=mem_iff_getElem?.mp ht
  exact validateAdjustors_owned _ hadjustors (t,i) (mem_zipIdx_iff_getElem?.mpr hi)

end

section
variable {g : Game} {methods : List UnityMethodInfo} {invPtrs : ℕ}

def noteInvoker (g : Game) (invPtrs : ℕ) (value : Option ℕ) :
    Option (ℕ×UInt64) → Option (ℕ×UInt64) :=
  match value with
  | none => id
  | some ii => fun _ => some (ii,pointerAt g invPtrs ii)

def InvokerRow.note (g : Game) (invPtrs : ℕ) (v : ℕ×InvokerRow) :
    ℕ×(Option (ℕ×UInt64) → Option (ℕ×UInt64)) := (v.1,noteInvoker g invPtrs v.2.value)

/-- The methods of a module with their rows. -/
def visitsOf (name : String) (ms : List ℕ) (rows : List ℤ) : List (ℕ×InvokerRow) :=
  ((ms.zip rows).zipIdx).map fun x => (x.1.1,⟨name,x.2+1,indexValue x.1.2⟩)

variable {name : String} {ms : List ℕ} {rows : List ℤ}

theorem visitsOf_methods (h:rows.length=ms.length) : (visitsOf name ms rows).map Prod.fst=ms:=by
  have hfst : (visitsOf name ms rows).map Prod.fst =
      (((ms.zip rows).zipIdx).map Prod.fst).map Prod.fst:=by
    rw [visitsOf,List.map_map,List.map_map]
    rfl
  rw [hfst,zipIdx_map_fst,map_fst_zip h.ge]

theorem visitsOf_rows (h:rows.length=ms.length) : (visitsOf name ms rows).map Prod.snd =
      rows.zipIdx.map fun x=>⟨name,x.2+1,indexValue x.1⟩:=by
  conv_rhs=>rw [← map_snd_zip h.le,zipIdx_map,List.map_map]
  rw [visitsOf,List.map_map]
  rfl

theorem pendInvoker_noted {methodPtrs:ℕ} {invokers invokers':List (Option (ℕ×UInt64))}
    {x:(ℕ×ℤ)×ℕ} (hx:x.1.2 = -1 ∨ 0≤x.1.2)
    (h:pendInvoker g methods methodPtrs invPtrs invokers x=.ok invokers') :
    invokers'=invokers.modify x.1.1 (noteInvoker g invPtrs (indexValue x.1.2)):=by
  obtain ⟨⟨m,ii⟩,i⟩:=x
  rw [pendInvoker] at h
  dsimp only at h hx ⊢
  split at h
  · cases h
  split at h
  · rename_i hneg
    cases h
    have hmissing : ii = -1:=hx.resolve_right (not_le.mpr hneg)
    rw [indexValue,if_pos hmissing]
    exact (modify_id _ _).symm
  · rename_i hneg
    split at h
    · cases h
    cases h
    have hfound : ii ≠ -1:=by omega
    rw [indexValue,if_neg hfound]
    rfl

theorem pendInvokers_noted {methodPtrs:ℕ} {invokers invokers':List (Option (ℕ×UInt64))}
    (hrows:∀x∈(ms.zip rows).zipIdx,x.1.2 = -1 ∨ 0≤x.1.2)
    (h:((ms.zip rows).zipIdx).foldlM (pendInvoker g methods methodPtrs invPtrs) invokers =
      .ok invokers') :
    invokers'=updates ((visitsOf name ms rows).map (InvokerRow.note g invPtrs)) invokers:=by
  rw [visitsOf,List.map_map]
  exact foldlM_updates (fun x hx l l' hl=>pendInvoker_noted (hrows x hx) hl) h

end

/-- Thunks noted for their methods, each in a place that was free. -/
structure Noted (s s' : List UInt64) (ws : List (ℕ×Thunk)) : Prop where
  written : s'=updates (ws.map fun w => (w.1,fun _ => w.2.va)) s
  nodup : (ws.map Prod.fst).Nodup
  free : ∀ w∈ws, s[w.1]?.getD 0 = 0
  taken : ∀ w∈ws, s'[w.1]?.getD 0 ≠ 0

section
variable {s s' s'' : List UInt64} {ws ws' : List (ℕ×Thunk)}

theorem Noted.nil : Noted s s []:=
  ⟨rfl,nodup_nil,fun _ hw=>absurd hw not_mem_nil,
    fun _ hw=>absurd hw not_mem_nil⟩

theorem Noted.length (h:Noted s s' ws) : s'.length=s.length:=by
  rw [h.written,length_updates]

theorem Noted.other (h:Noted s s' ws) {i:ℕ} (hi:i ∉ ws.map Prod.fst) : s'[i]? = s[i]? := by
  rw [h.written,getElem?_updates_of_not_mem]
  rwa [List.map_map]

theorem Noted.append (h:Noted s s' ws) (h':Noted s' s'' ws') : Noted s s'' (ws++ws'):=by
  -- a place that was free for the later thunks was not taken by the earlier ones
  have hdisjoint : ∀w∈ws,w.1 ∉ ws'.map Prod.fst:=by
    intro w hw hmem
    obtain ⟨w',hw',heq⟩:=mem_map.mp hmem
    exact h.taken w hw (heq▸h'.free w' hw')
  have hdisjoint' : ∀w∈ws',w.1 ∉ ws.map Prod.fst:=by
    intro w' hw' hmem
    obtain ⟨w,hw,heq⟩:=mem_map.mp hmem
    exact hdisjoint w hw (heq▸mem_map_of_mem hw')
  refine ⟨?_,?_,?_,?_⟩
  · rw [h'.written,h.written,map_append,updates_append]
  · rw [map_append]
    refine h.nodup.append h'.nodup fun i hi hi'=>?_
    obtain ⟨w,hw,rfl⟩:=mem_map.mp hi
    exact hdisjoint w hw hi'
  · intro w hw
    rcases mem_append.mp hw with hw | hw
    · exact h.free w hw
    · rw [← h.other (hdisjoint' w hw)]
      exact h'.free w hw
  · intro w hw
    rcases mem_append.mp hw with hw | hw
    · rw [h'.other (hdisjoint w hw)]
      exact h.taken w hw
    · exact h'.taken w hw

end

section
variable {g : Game} {methods : List UnityMethodInfo} {slots : List ℕ}

theorem pendAdjustor_noted {s s':List UInt64} {a:ℕ×UInt64} {i:ℕ} (name:String)
    (howner:slots[rid a.1 - 1]? = some i) (hi:i<s.length) (hva:a.2≠0)
    (h:pendAdjustor methods slots s a=.ok s') : Noted s s' [(i,⟨name,a.1,a.2⟩)]:=by
  rw [pendAdjustor,howner] at h
  dsimp only at h
  split at h
  · cases h
  rename_i hfree
  cases h
  refine ⟨rfl,nodup_singleton i,?_,?_⟩
  · rintro w hw
    obtain rfl:=mem_singleton.mp hw
    exact not_not.mp hfree
  · rintro w hw
    obtain rfl:=mem_singleton.mp hw
    dsimp only
    rw [getElem?_modify,getElem?_eq_getElem hi]
    simpa using hva

/-- The thunks of a module with their methods. -/
def notesOf (name : String) (slots : List ℕ) (thunks : List (ℕ×UInt64)) : List (ℕ×Thunk) :=
  thunks.map fun a => ((slots[rid a.1 - 1]?).getD 0,⟨name,a.1,a.2⟩)

theorem pendAdjustors_noted {s s':List UInt64} {thunks:List (ℕ×UInt64)} (name:String)
    (hthunks:∀a∈thunks,a.2≠0 ∧ ∃i<s.length,slots[rid a.1 - 1]? = some i)
    (h:thunks.foldlM (pendAdjustor methods slots) s=.ok s') :
    Noted s s' (notesOf name slots thunks):=by
  induction thunks generalizing s with
  | nil=>
    cases h
    exact .nil
  | cons a thunks ih=>
    rw [foldlM_cons,bind_eq_ok] at h
    obtain ⟨s₁,ha,h⟩:=h
    obtain ⟨hva,i,hi,howner⟩:=hthunks a mem_cons_self
    have hone:=pendAdjustor_noted name howner hi hva ha
    have hrest:=ih (fun b hb=>hone.length▸hthunks b (mem_cons_of_mem a hb)) h
    have hall:=hone.append hrest
    rw [notesOf,map_cons,howner]
    exact hall

theorem adjustorsPre108_code {m:DispatchModule} {thunks:List (ℕ×UInt64)}
    (h:adjustorsPre108 g m=.ok thunks) :
    thunks.length=m.adjustorCount ∧ ∀a∈thunks,a.2≠0:=by
  unfold adjustorsPre108 at h
  split at h
  · rename_i hzero
    cases h
    exact ⟨hzero.symm,fun a ha=>absurd ha not_mem_nil⟩
  split at h
  · cases h
  split at h
  · cases h
  rename_i ao hao
  have hmap : ∀(js:List ℕ) (out:List (ℕ×UInt64)),(js.mapM fun i=>
      if g.code (q64 g.bytes (ao+i*16+8)) then
        Except.ok (u32 g.bytes (ao+i*16),q64 g.bytes (ao+i*16+8))
      else .error ("pre-v108 adjustor thunk pointer invalid: "++m.name)) = .ok out →
      out.length=js.length ∧ ∀a∈out,a.2≠0:=by
    intro js
    induction js with
    | nil=>
      intro out hout
      cases hout
      exact ⟨rfl,fun a ha=>absurd ha not_mem_nil⟩
    | cons j js ih=>
      intro out hout
      rw [mapM_cons,bind_eq_ok] at hout
      obtain ⟨a,ha,hout⟩:=hout
      rw [bind_eq_ok] at hout
      obtain ⟨tail,htail,hout⟩:=hout
      cases hout
      obtain ⟨hlength,hvas⟩:=ih tail htail
      refine ⟨congrArg Nat.succ hlength,forall_mem_cons.mpr ⟨?_,hvas⟩⟩
      split at ha
      · rename_i hcode
        cases ha
        rw [Game.code,Bool.and_eq_true,Bool.and_eq_true,bne_iff_ne] at hcode
        exact hcode.1.1
      · cases ha
  have h':=hmap _ _ h
  rwa [length_range] at h'

end

structure ModulePended (g : Game) (methods : List UnityMethodInfo) (imageNames : List String)
    (invPtrs : ℕ) (name : String) (p p' : Pending) (vs : List (ℕ×InvokerRow))
    (ws : List (ℕ×Thunk)) : Prop where
  names : p'.moduleNames=p.moduleNames++[name]
  fresh : name ∉ p.moduleNames
  known : name∈imageNames
  owners : (vs.map Prod.fst).Perm (groupOf methods name)
  dense : ((groupOf methods name).map fun i => rid (tokenOf methods i)).Perm
    (range' 1 (groupOf methods name).length)
  place : ∀ v∈vs, ∃ m, methods[v.1]? = some m ∧ m.imageName=v.2.image ∧
    rid m.token = v.2.rid ∧ v.2.image=name
  owned : ∀ w∈ws, ∃ m, methods[w.1]? = some m ∧ m.imageName=w.2.image ∧ m.token=w.2.token
  invokers : p'.invokers=updates (vs.map (InvokerRow.note g invPtrs)) p.invokers
  adjustors : p.adjustors.length=methods.length → Noted p.adjustors p'.adjustors ws
  methodTotal : p'.totalMethods=p.totalMethods+vs.length
  resolved : p'.totalInvResolved=p.totalInvResolved+vs.countP (·.2.value.isSome)
  missing : p'.totalInvMissing=p.totalInvMissing+vs.countP (!·.2.value.isSome)
  adjustorTotal : p'.totalAdjustors=p.totalAdjustors+ws.length

section
variable {g : Game} {methods : List UnityMethodInfo} {version : ℕ} {variant : String}
  {imageNames : List String} {invokerCount invPtrs mlo mi : ℕ} {p p' : Pending}

variable {name : String}

theorem contractPre108_eq_ok {contract:Except String (ℕ×ℕ)} {out:ℕ×ℕ} :
    contractPre108 name contract=.ok out ↔ contract=.ok out:=by
  cases contract with
  | error e=>
    constructor
    · intro h
      cases h
    · intro h
      cases h
  | ok out'=>exact Iff.rfl

theorem pendModule_ok
    (h:pendModule g methods version variant imageNames invokerCount invPtrs mlo p mi=.ok p') :
    ∃m slots ms methodPtrs rows thunks contract,modulePre108 g mlo mi=.ok m ∧
      nameModule imageNames p m.name=.ok () ∧
      slotsOf (tokenOf methods) (fun t=>table t == 0x06)
        ("pre-v108 image MethodDef tokens are not unique dense RID order: "++m.name)
        (groupOf methods m.name)=.ok slots ∧
      slots.mapM id=some ms ∧ rowsPre108 g m=.ok (methodPtrs,rows) ∧
      adjustorsPre108 g m=.ok thunks ∧
      validatePre108Tables version variant (ms.map (tokenOf methods)) m.methodCount rows
        invokerCount (thunks.map Prod.fst)=.ok contract ∧
      ((ms.zip rows).zipIdx).foldlM (pendInvoker g methods methodPtrs invPtrs) p.invokers =
        .ok p'.invokers ∧
      thunks.foldlM (pendAdjustor methods ms) p.adjustors=.ok p'.adjustors ∧
      p'.moduleNames = p.moduleNames++[m.name] ∧
      p'.totalMethods = p.totalMethods+m.methodCount ∧
      p'.totalInvResolved = p.totalInvResolved+contract.1 ∧
      p'.totalInvMissing = p.totalInvMissing+contract.2 ∧
      p'.totalAdjustors = p.totalAdjustors+m.adjustorCount:=by
  rw [pendModule,bind_eq_ok] at h
  obtain ⟨m,hm,h⟩:=h
  rw [bind_eq_ok] at h
  obtain ⟨⟨⟩,hname,h⟩:=h
  split at h
  · cases h
  rw [bind_eq_ok] at h
  obtain ⟨slots,hslots,h⟩:=h
  split at h
  · cases h
  rename_i ms hms
  rw [bind_eq_ok] at h
  obtain ⟨⟨methodPtrs,rows⟩,hrows,h⟩:=h
  dsimp only at h
  rw [bind_eq_ok] at h
  obtain ⟨thunks,hthunks,h⟩:=h
  rw [bind_eq_ok] at h
  obtain ⟨contract,hcontract,h⟩:=h
  rw [contractPre108_eq_ok] at hcontract
  split at h
  · cases h
  rw [bind_eq_ok] at h
  obtain ⟨invokers,hinvokers,h⟩:=h
  rw [bind_eq_ok] at h
  obtain ⟨adjustors,hadjustors,h⟩:=h
  cases h
  exact ⟨m,slots,ms,methodPtrs,rows,thunks,contract,hm,hname,hslots,hms,hrows,hthunks,
    hcontract,hinvokers,hadjustors,rfl,rfl,rfl,rfl,rfl⟩

theorem nameModule_ok (h:nameModule imageNames p name=.ok ()) :
    name ∉ p.moduleNames ∧ name∈imageNames:=by
  unfold nameModule at h
  split at h
  · cases h
  · rename_i hname
    simp only [not_or,not_not] at hname
    exact ⟨hname.2.1,hname.2.2⟩

theorem mapM_id_some {ms:List ℕ} : (ms.map some).mapM id=some ms:=by
  induction ms with
  | nil=>rfl
  | cons m ms ih=>
    rw [map_cons,mapM_cons,ih]
    rfl

theorem pendModule_pended
    (h:pendModule g methods version variant imageNames invokerCount invPtrs mlo p mi=.ok p') :
    ∃name vs ws,ModulePended g methods imageNames invPtrs name p p' vs ws ∧
      vs.map Prod.snd=invokersOfPre108 g mlo mi ∧ ws.map Prod.snd=thunksOfPre108 g mlo mi:=by
  obtain ⟨m,slots,ms,methodPtrs,rows,thunks,contract,hm,hname,hslots,hms,hrows,
    hthunks,hcontract,hinvokers,hadjustors,hnames,hmethodTotal,hresolved,hmissing,
    hadjustorTotal⟩:=pendModule_ok h
  obtain ⟨hfresh,hknown⟩:=nameModule_ok hname
  obtain ⟨ms',rfl,hperm,hrids⟩:=slotsOf_eq_ok (nodup_groupOf methods m.name) hslots
  rw [mapM_id_some,some.injEq] at hms
  obtain rfl:=hms
  obtain ⟨hpointers,hlength,hcounted,hadjustorTokens⟩:=validatePre108Tables_ok hcontract
  rw [length_map] at hpointers hlength
  rw [zip_map_left,zipIdx_map] at hcounted
  obtain ⟨hvalues,hones,hnones⟩:=validateRows_counts _ hcounted
  obtain ⟨hthunkCount,hcode⟩:=adjustorsPre108_code hthunks
  have hvalues' : ∀x∈(ms'.zip rows).zipIdx,x.1.2 = -1 ∨ 0≤x.1.2:=forall_mem_map.mp hvalues
  have hvisits : (visitsOf m.name ms' rows).map Prod.fst=ms':=visitsOf_methods hlength
  have hvisitCount : (visitsOf m.name ms' rows).length=m.methodCount:=by
    rw [hpointers]
    conv_rhs=>rw [← hvisits,length_map]
  have howner : ∀a∈thunks,∃i mi,ms'[rid a.1 - 1]? = some i ∧ methods[i]? = some mi ∧
      mi.imageName=m.name ∧ mi.token=a.1:=by
    intro a ha
    have htoken:=hadjustorTokens a.1 (mem_map_of_mem ha)
    rw [getElem?_map,map_eq_some_iff] at htoken
    obtain ⟨i,hi,htoken⟩:=htoken
    obtain ⟨mi,hmi,hminame⟩:=mem_groupOf.mp (hperm.mem_iff.mp (mem_of_getElem? hi))
    rw [tokenOf,hmi,map_some,getD_some] at htoken
    exact ⟨i,mi,hi,hmi,hminame,htoken⟩
  refine ⟨m.name,visitsOf m.name ms' rows,notesOf m.name ms' thunks,
    ⟨hnames,hfresh,hknown,?_,?_,?_,?_,?_,?_,?_,?_,?_,?_⟩,?_,?_⟩
  · rwa [hvisits]
  · rw [← hperm.length_eq,← rids_eq hrids]
    exact (hperm.map _).symm
  · refine forall_mem_map.mpr fun x hx=>?_
    obtain ⟨hslot,-⟩:=getElem?_zip_eq_some.mp (mem_zipIdx_iff_getElem?.mp hx)
    obtain ⟨mx,hmx,hmxname⟩:=mem_groupOf.mp (hperm.mem_iff.mp (mem_of_getElem? hslot))
    have hr:=hrids _ _ hslot
    rw [tokenOf,hmx] at hr
    exact ⟨mx,hmx,hmxname,hr,rfl⟩
  · refine forall_mem_map.mpr fun a ha=>?_
    obtain ⟨i,mi,hi,hmi,hminame,htoken⟩:=howner a ha
    refine ⟨mi,?_,hminame,htoken⟩
    rw [hi]
    exact hmi
  · exact pendInvokers_noted hvalues' hinvokers
  · intro hcount
    refine pendAdjustors_noted m.name (fun a ha=>⟨hcode a ha,?_⟩) hadjustors
    obtain ⟨i,mi,hi,hmi,-⟩:=howner a ha
    exact ⟨i,hcount▸(List.getElem?_eq_some_iff.mp hmi).1,hi⟩
  · rw [hmethodTotal,hvisitCount]
  · rw [hresolved,hones,Nat.zero_add,visitsOf,countP_map,countP_map]
    rfl
  · rw [hmissing,hnones,Nat.zero_add,visitsOf,countP_map,countP_map]
    rfl
  · rw [hadjustorTotal,notesOf,length_map,hthunkCount]
  · rw [visitsOf_rows hlength,invokersOfPre108,hm]
    dsimp only
    rw [rowsOfModule,hrows]
  · rw [thunksOfPre108,hm]
    dsimp only
    rw [thunksOfModule,hthunks,notesOf,List.map_map]
    rfl

/-- What the modules that were read have left pending. -/
structure Pended (g : Game) (methods : List UnityMethodInfo) (imageNames : List String)
    (invPtrs mlo : ℕ) (mis : List ℕ) (p : Pending) (vs : List (ℕ×InvokerRow))
    (ws : List (ℕ×Thunk)) : Prop where
  rows : vs.map Prod.snd = mis.flatMap (invokersOfPre108 g mlo)
  thunks : ws.map Prod.snd = mis.flatMap (thunksOfPre108 g mlo)
  names : p.moduleNames.Nodup
  known : ∀ name∈p.moduleNames, name∈imageNames
  owners : (vs.map Prod.fst).Perm (p.moduleNames.flatMap (groupOf methods))
  dense : ∀ name∈p.moduleNames, ((groupOf methods name).map fun i => rid (tokenOf methods i)).Perm
    (range' 1 (groupOf methods name).length)
  place : ∀ v∈vs, ∃ m, methods[v.1]? = some m ∧ m.imageName=v.2.image ∧
    rid m.token = v.2.rid ∧ v.2.image∈p.moduleNames
  owned : ∀ w∈ws, ∃ m, methods[w.1]? = some m ∧ m.imageName=w.2.image ∧ m.token=w.2.token
  invokers : p.invokers =
    updates (vs.map (InvokerRow.note g invPtrs)) (List.replicate methods.length none)
  adjustors : Noted (List.replicate methods.length 0) p.adjustors ws
  methodTotal : p.totalMethods=vs.length
  resolved : p.totalInvResolved=vs.countP (·.2.value.isSome)
  missing : p.totalInvMissing=vs.countP (!·.2.value.isSome)
  adjustorTotal : p.totalAdjustors=ws.length

theorem Pended.nil : Pended g methods imageNames invPtrs mlo []
    { invokers:=List.replicate methods.length none
      adjustors:=List.replicate methods.length 0 } [] []:=
  ⟨rfl,rfl,nodup_nil,fun _ h=>absurd h not_mem_nil,.nil,
    fun _ h=>absurd h not_mem_nil,fun _ h=>absurd h not_mem_nil,
    fun _ h=>absurd h not_mem_nil,rfl,.nil,rfl,rfl,rfl,rfl⟩

theorem Pended.step {mis:List ℕ} {vs vs':List (ℕ×InvokerRow)} {ws ws':List (ℕ×Thunk)}
    (h:Pended g methods imageNames invPtrs mlo mis p vs ws)
    (h':ModulePended g methods imageNames invPtrs name p p' vs' ws')
    (hrows:vs'.map Prod.snd=invokersOfPre108 g mlo mi)
    (hthunks:ws'.map Prod.snd=thunksOfPre108 g mlo mi) :
    Pended g methods imageNames invPtrs mlo (mis++[mi]) p' (vs++vs') (ws++ws'):=by
  have hold : ∀n∈p.moduleNames,n∈p'.moduleNames:=fun n hn=>
    h'.names▸mem_append_left _ hn
  have hnew : name∈p'.moduleNames:=h'.names▸mem_append_right _ (mem_singleton_self _)
  have hnames : ∀n∈p'.moduleNames,n∈p.moduleNames ∨ n=name:=by
    intro n hn
    rw [h'.names,mem_append,mem_singleton] at hn
    exact hn
  refine ⟨?_,?_,?_,?_,?_,?_,?_,?_,?_,?_,?_,?_,?_,?_⟩
  · rw [map_append,h.rows,hrows,flatMap_append,flatMap_singleton]
  · rw [map_append,h.thunks,hthunks,flatMap_append,flatMap_singleton]
  · rw [h'.names]
    exact h.names.append (nodup_singleton name) (disjoint_singleton.mpr h'.fresh)
  · intro n hn
    rcases hnames n hn with hn | rfl
    · exact h.known n hn
    · exact h'.known
  · rw [map_append,h'.names,flatMap_append,flatMap_singleton]
    exact h.owners.append h'.owners
  · intro n hn
    rcases hnames n hn with hn | rfl
    · exact h.dense n hn
    · exact h'.dense
  · intro v hv
    rcases mem_append.mp hv with hv | hv
    · obtain ⟨m,hm,himage,hrid,hmem⟩:=h.place v hv
      exact ⟨m,hm,himage,hrid,hold _ hmem⟩
    · obtain ⟨m,hm,himage,hrid,hname⟩:=h'.place v hv
      exact ⟨m,hm,himage,hrid,hname▸hnew⟩
  · exact forall_mem_append.mpr ⟨h.owned,h'.owned⟩
  · rw [h'.invokers,h.invokers,map_append,updates_append]
  · refine h.adjustors.append (h'.adjustors ?_)
    rw [h.adjustors.length,length_replicate]
  · rw [h'.methodTotal,h.methodTotal,length_append]
  · rw [h'.resolved,h.resolved,countP_append]
  · rw [h'.missing,h.missing,countP_append]
  · rw [h'.adjustorTotal,h.adjustorTotal,length_append]

theorem modules_pended {moduleCount:ℕ} (h:(List.range moduleCount).foldlM
      (pendModule g methods version variant imageNames invokerCount invPtrs mlo)
      { invokers:=List.replicate methods.length none
        adjustors:=List.replicate methods.length 0 } = .ok p) :
    ∃vs ws,Pended g methods imageNames invPtrs mlo (List.range moduleCount) p vs ws:=by
  refine foldlM_range (P:=fun k p=>∃vs ws,
    Pended g methods imageNames invPtrs mlo (List.range k) p vs ws) ?_ ⟨[],[],.nil⟩ h
  rintro k - p ⟨vs,ws,hp⟩ p' hmodule
  obtain ⟨name,vs',ws',hnext,hrows,hthunks⟩:=pendModule_pended hmodule
  rw [range_succ]
  exact ⟨_,_,hp.step hnext hrows hthunks⟩

end

section
variable {g : Game} {invPtrs : ℕ} {m : UnityMethodInfo}

theorem hasInvoker_commit (value:Option ℕ) (va:UInt64) :
    HasInvoker g.imageBase (pointerAt g invPtrs) value
      (commitMethod g.imageBase m (noteInvoker g invPtrs value none) va):=by
  unfold commitMethod
  cases value <;> dsimp only [noteInvoker,id] <;> split <;> exact ⟨rfl,rfl,rfl,rfl⟩

theorem hasThunk_commit {va:UInt64} (hva:va≠0) (invoker:Option (ℕ×UInt64)) :
    HasThunk g.imageBase (some va) (commitMethod g.imageBase m invoker va):=by
  unfold commitMethod
  rw [if_pos hva]
  exact ⟨rfl,rfl,rfl⟩

theorem hasThunk_commit_none (invoker:Option (ℕ×UInt64)) :
    HasThunk g.imageBase none (commitMethod g.imageBase m invoker 0):=by
  unfold commitMethod
  rw [if_neg (fun h=>h rfl)]
  cases invoker <;> exact ⟨rfl,rfl,rfl⟩

theorem commitMethod_same (invoker:Option (ℕ×UInt64)) (va:UInt64) :
    (commitMethod g.imageBase m invoker va).imageName=m.imageName ∧
      (commitMethod g.imageBase m invoker va).token=m.token:=by
  unfold commitMethod
  cases invoker <;> dsimp only <;> split <;> exact ⟨rfl,rfl⟩

def committed (base : UInt64) (methods : List UnityMethodInfo) (p : Pending) :
    List UnityMethodInfo :=
  methods.zipWith (fun m x => commitMethod base m x.1 x.2) (p.invokers.zip p.adjustors)

theorem committed_method {methods:List UnityMethodInfo} {p:Pending} {i:ℕ}
    {invoker:Option (ℕ×UInt64)} {va:UInt64} (hm:methods[i]? = some m)
    (hinvoker:p.invokers[i]? = some invoker) (hva:p.adjustors[i]? = some va) :
    (committed g.imageBase methods p)[i]? = some (commitMethod g.imageBase m invoker va):=by
  rw [committed,getElem?_zipWith_eq_some]
  exact ⟨m,(invoker,va),hm,getElem?_zip_eq_some.mpr ⟨hinvoker,hva⟩,rfl⟩

variable {u u' : UnityInfo} {imageNames : List String} {mlo : ℕ} {mis : List ℕ} {p : Pending}
  {vs : List (ℕ×InvokerRow)} {ws : List (ℕ×Thunk)}

theorem Pended.noted_invoker (h:Pended g u.methods imageNames invPtrs mlo mis p vs ws)
    {v:ℕ×InvokerRow} (hv:v∈vs) (hlt:v.1<u.methods.length) :
    p.invokers[v.1]? = some (noteInvoker g invPtrs v.2.value none):=by
  have hfst : (vs.map (InvokerRow.note g invPtrs)).map Prod.fst=vs.map Prod.fst:=by
    rw [List.map_map]
    rfl
  have hnodup : (vs.map Prod.fst).Nodup:=h.owners.nodup_iff.mpr (nodup_groups _ h.names)
  have hnote : (v.1,noteInvoker g invPtrs v.2.value)∈vs.map (InvokerRow.note g invPtrs):=
    mem_map_of_mem hv
  rw [h.invokers,getElem?_updates (hfst▸hnodup) hnote,getElem?_replicate,if_pos hlt]
  rfl

theorem Pended.noted_thunk (h:Pended g u.methods imageNames invPtrs mlo mis p vs ws)
    {w:ℕ×Thunk} (hw:w∈ws) :
    w.2.va≠0 ∧ p.adjustors[w.1]? = some w.2.va:=by
  obtain ⟨m,hm,-⟩:=h.owned w hw
  have hlt:=(List.getElem?_eq_some_iff.mp hm).1
  have hfst : (ws.map fun w=>(w.1,fun _ : UInt64=>w.2.va)).map Prod.fst =
      ws.map Prod.fst:=by
    rw [List.map_map]
    rfl
  have hva : p.adjustors[w.1]? = some w.2.va:=by
    rw [h.adjustors.written,getElem?_updates (hfst▸h.adjustors.nodup)
      (mem_map_of_mem (f:=fun w=>(w.1,fun _ : UInt64=>w.2.va)) hw),
      getElem?_replicate,if_pos hlt]
    rfl
  refine ⟨?_,hva⟩
  have htaken:=h.adjustors.taken w hw
  rwa [hva,getD_some] at htaken

theorem Pended.no_thunk (h:Pended g u.methods imageNames invPtrs mlo mis p vs ws) {i:ℕ}
    (hlt:i<u.methods.length) (hi:i ∉ ws.map Prod.fst) : p.adjustors[i]? = some 0:=by
  rw [h.adjustors.other hi,getElem?_replicate,if_pos hlt]

theorem Pended.read (h:Pended g u.methods imageNames invPtrs mlo mis p vs ws)
    (hcover:∀n∈imageNames,n∈p.moduleNames) (htotal:p.totalMethods=u.methods.length)
    (hmethods:u'.methods=committed g.imageBase u.methods p) :
    Read u u' g.imageBase (pointerAt g invPtrs) imageNames vs ws:=by
  have hlength : (p.moduleNames.flatMap (groupOf u.methods)).length=u.methods.length:=by
    rw [← h.owners.length_eq,length_map,← h.methodTotal,htotal]
  have hinvokers : p.invokers.length=u.methods.length:=by
    rw [h.invokers,length_updates,length_replicate]
  have hadjustors : p.adjustors.length=u.methods.length:=by
    rw [h.adjustors.length,length_replicate]
  refine ⟨h.owners.trans (groups_perm h.names hlength),h.adjustors.nodup,?_,fun name hname=>
    h.dense name (hcover name hname),fun v hv=>?_,h.owned,fun v hv m hm=>?_⟩
  · rw [hmethods,committed,length_zipWith,length_zip,hinvokers,hadjustors,
      Nat.min_self,Nat.min_self]
  · obtain ⟨m,hm,himage,hrid,hmem⟩:=h.place v hv
    exact ⟨m,hm,himage,hrid,h.known _ hmem⟩
  · have hlt:=(List.getElem?_eq_some_iff.mp hm).1
    have hinvoker:=h.noted_invoker hv hlt
    rw [hmethods]
    by_cases hmem : v.1∈ws.map Prod.fst
    · obtain ⟨w,hw,heq⟩:=mem_map.mp hmem
      obtain ⟨hva,hadjustor⟩:=h.noted_thunk hw
      rw [heq] at hadjustor
      obtain ⟨hname,htoken⟩:=commitMethod_same (g:=g) (m:=m)
        (noteInvoker g invPtrs v.2.value none) w.2.va
      refine ⟨_,committed_method hm hinvoker hadjustor,hname,htoken,hasInvoker_commit _ _,?_,
        fun hnot=>absurd hmem hnot⟩
      intro w' hw' heq'
      have hsame:=(h.noted_thunk hw').2
      rw [heq',hadjustor,some.injEq] at hsame
      rw [← hsame]
      exact hasThunk_commit hva _
    · obtain ⟨hname,htoken⟩:=commitMethod_same (g:=g) (m:=m)
        (noteInvoker g invPtrs v.2.value none) 0
      refine ⟨_,committed_method hm hinvoker (h.no_thunk hlt hmem),hname,htoken,
        hasInvoker_commit _ _,?_,fun _=>hasThunk_commit_none _⟩
      intro w hw heq
      exact absurd (mem_map.mpr ⟨w,hw,heq⟩) hmem

end

/-- What a resolved attempt before v108 says. -/
def ResolvedPre108 (g : Game) (md : Metadata) (moduleListVa : UInt64) (moduleCount : ℕ)
    (u u' : UnityInfo) : Prop :=
  ∃ invokerCount invPtrs mlo,
    geometryPre108 u g md moduleCount = .ok (invokerCount,invPtrs) ∧
    g.vaoff moduleListVa = some mlo ∧ (md.images.map (·.name)).Nodup ∧
    Dispatched g.imageBase (pointerAt g invPtrs) (md.images.map (·.name))
      ((List.range moduleCount).flatMap (invokersOfPre108 g mlo))
      ((List.range moduleCount).flatMap (thunksOfPre108 g mlo)) u' ∧
    u'.types = u.types ∧ u'.staticInitTypeCount=0 ∧ u'.staticInitWithCctorCount=0

section
variable {u : UnityInfo} {g : Game} {moduleListVa : UInt64} {moduleCount : ℕ} {p : Pending}

theorem collectModules_pended {md:Metadata} {invokerCount invPtrs:ℕ}
    (h:collectModules u g md moduleListVa moduleCount invokerCount invPtrs=.ok p) :
    (md.images.map (·.name)).Nodup ∧ (∀n∈md.images.map (·.name),n∈p.moduleNames) ∧
      p.totalMethods=u.methods.length ∧ ∃mlo vs ws,g.vaoff moduleListVa=some mlo ∧
        Pended g u.methods (md.images.map (·.name)) invPtrs mlo (List.range moduleCount) p vs ws:=by
  unfold collectModules at h
  split at h
  · cases h
  split at h
  · cases h
  rename_i himages
  rw [not_not,checkImageNames,Bool.and_eq_true,decide_eq_true_eq] at himages
  split at h
  · cases h
  rename_i mlo hmlo
  split at h
  · cases h
  rw [bind_eq_ok] at h
  obtain ⟨p',hmodules,h⟩:=h
  split at h
  · cases h
  rename_i hcover
  cases h
  rw [not_or,not_not,not_not] at hcover
  obtain ⟨vs,ws,hp⟩:=modules_pended hmodules
  exact ⟨himages.2,hcover.1,hcover.2,mlo,vs,ws,hmlo,hp⟩

theorem collectPre108_cases (u:UnityInfo) (g:Game) (moduleListVa:UInt64) (moduleCount:ℕ)
    (md:Option Metadata) :
    (∃state e,state ≠ "RESOLVED" ∧ collectPre108 u g md moduleListVa moduleCount=.error (state,e)) ∨
    ∃md' invokerCount invPtrs p,md=some md' ∧
      geometryPre108 u g md' moduleCount=.ok (invokerCount,invPtrs) ∧
      collectModules u g md' moduleListVa moduleCount invokerCount invPtrs=.ok p ∧
      collectPre108 u g md moduleListVa moduleCount=.ok p:=by
  have hfailed : "FAILED" ≠ "RESOLVED" := by decide
  have hunsupported : "UNSUPPORTED_PROFILE" ≠ "RESOLVED" := by decide
  have hunavailable : "DEPENDENCY_UNAVAILABLE" ≠ "RESOLVED" := by decide
  unfold collectPre108
  split
  · exact .inl ⟨_,_,hunsupported,rfl⟩
  split
  · exact .inl ⟨_,_,hunavailable,rfl⟩
  split
  · exact .inl ⟨_,_,hfailed,rfl⟩
  rename_i md'
  split
  · exact .inl ⟨_,_,hfailed,rfl⟩
  rename_i invokerCount invPtrs hgeometry
  split
  · exact .inl ⟨_,_,hfailed,rfl⟩
  rename_i p hp
  exact .inr ⟨md',invokerCount,invPtrs,p,rfl,hgeometry,hp,rfl⟩

end

/-- An attempt before v108 is resolved as it says, or leaves the methods and types as they were
and reports no counts. -/
theorem resolveMethodDispatchPre108_spec (u:UnityInfo) (g:Game) (md:Option Metadata)
    (moduleListVa:UInt64) (moduleCount:ℕ) :
    let u':=resolveMethodDispatchPre108 u g md moduleListVa moduleCount
    (u'.methodDispatchState = "RESOLVED" ∧
      ∃md',md=some md' ∧ ResolvedPre108 g md' moduleListVa moduleCount u u') ∨
    (u'.methodDispatchState ≠ "RESOLVED" ∧ u'.methods=u.methods ∧ u'.types=u.types ∧
      dispatchCounts u'=[0,0,0,0,0,0]):=by
  intro u'
  obtain ⟨state,e,hstate,hcollect⟩ | ⟨md',invokerCount,invPtrs,p,hmd,hgeometry,hmodules,
    hcollect⟩:=collectPre108_cases u g moduleListVa moduleCount md
  · right
    have hu' : u' = {u.reset with methodDispatchState:=state,methodDispatchError:=e}:=by
      change resolveMethodDispatchPre108 u g md moduleListVa moduleCount=_
      rw [resolveMethodDispatchPre108,hcollect]
    rw [hu']
    exact ⟨hstate,rfl,rfl,rfl⟩
  · left
    have hu' : u' = { u.reset with
        methods:=committed g.imageBase u.methods p,methodDispatchMethodCount:=p.totalMethods
        methodInvokerResolvedCount:=p.totalInvResolved,methodInvokerMissingCount:=p.totalInvMissing
        methodAdjustorCount:=p.totalAdjustors
        methodDispatchProfile := "pre-v108-module-method+invoker+token-adjustor"
        methodDispatchState := "RESOLVED"
        methodDispatchResolved:=true }:=by
      change resolveMethodDispatchPre108 u g md moduleListVa moduleCount=_
      rw [resolveMethodDispatchPre108,hcollect]
      rfl
    obtain ⟨hnodup,hcover,htotal,mlo,vs,ws,hmlo,hp⟩:=collectModules_pended hmodules
    have hread : Read u u' g.imageBase (pointerAt g invPtrs) (md'.images.map (·.name)) vs ws:=
      hp.read hcover htotal (congrArg UnityInfo.methods hu')
    have hcounted : Counted u u' vs ws:=by
      rw [hu']
      exact ⟨htotal,hp.resolved,hp.missing,hp.adjustorTotal⟩
    have hdispatched:=hread.dispatched hcounted
    rw [hp.rows,hp.thunks] at hdispatched
    refine ⟨congrArg UnityInfo.methodDispatchState hu',md',hmd,invokerCount,invPtrs,mlo,
      hgeometry,hmlo,hnodup,hdispatched,?_⟩
    rw [hu']
    exact ⟨rfl,rfl,rfl⟩

/-- Before v108 an attempt is resolved and says what the tables say, or writes nothing. An attempt
of v108 is resolved and says what the tables say of images with different names, or reports no
new count. -/
theorem method_dispatch_resolved_or_uncounted (u : UnityInfo) (g : Game) (md : Option Metadata)
    (moduleListVa : UInt64) (moduleCount : ℕ) :
    (let u' := resolveMethodDispatchPre108 u g md moduleListVa moduleCount;
      (u'.methodDispatchState = "RESOLVED" ∧
        ∃ md', md=some md' ∧ ResolvedPre108 g md' moduleListVa moduleCount u u') ∨
      (u'.methodDispatchState ≠ "RESOLVED" ∧ u'.methods=u.methods ∧ u'.types=u.types ∧
        dispatchCounts u'=[0,0,0,0,0,0])) ∧
    (let u' := resolveMethodDispatchV108 u g md moduleListVa moduleCount;
      (u'.methodDispatchState = "RESOLVED" ∧
        ∃ md', md=some md' ∧ ResolvedV108 g md' moduleListVa moduleCount u u') ∨
      FailedV108 g md moduleCount u u') :=
  ⟨resolveMethodDispatchPre108_spec u g md moduleListVa moduleCount,
    resolveMethodDispatchV108_spec u g md moduleListVa moduleCount⟩

/-- An image at 0x1000 whose code registration has one invoker, which is the image's first byte;
two modules follow. -/
def sampleGame : Game where
  bytes :=
    List.replicate 40 0 ++ [1,0,0,0,0,0,0,0] ++ [0x38,0x10,0,0,0,0,0,0] ++
    [0,0x10,0,0,0,0,0,0] ++
    [0x50,0x10,0,0,0,0,0,0] ++ [0x78,0x10,0,0,0,0,0,0] ++
    ([1,0x10,0,0,0,0,0,0] ++ List.replicate 32 0) ++
    ([2,0x10,0,0,0,0,0,0] ++ List.replicate 32 0)
  imageBase := 0x1000
  vaoff va := if 0x1000 ≤ va ∧ va < 0x10a0 then some (va-0x1000).toNat else none
  mappedSpan va size := 0x1000 ≤ va && va.toNat+size ≤ 0x10a0
  ptrOk va := 0x1000 ≤ va && va < 0x10a0
  vaExecutable va := 0x1000 ≤ va && va < 0x10a0
  vaString va := if va = 0x1001 then "A" else "B"

/-- Metadata of v108 with two images. -/
def sampleMetadata (name : String) (rows : Bytes) : Metadata where
  bytes := rows
  ok := true
  ver := 108
  images := [
    {name := "A",index:=0,invokerStart:=some 0},
    {name,index:=1,invokerStart:=some 1}]
  invokerIndicesV108 := {size:=rows.length,count:=rows.length}

/-- Methods of some images, each with row id 1. -/
def sampleUnity (images : List String) : UnityInfo where
  metadataVersion := 108
  memberMetadataValid := true
  registrationResolved := true
  metadataRegistrationResolved := true
  codeRegistrationVa := 0x1000
  metadataMethodDefinitionCount := images.length
  metadataTypeDefinitionCount := 0
  methods := images.map fun imageName => {imageName,token:=0x06000001}
  types := []

/-- An image without methods fails the attempt and leaves the invoker of an earlier image; with
two images of one name an attempt is resolved that counts an invoker twice and leaves a method
without one. -/
theorem v108_leaves_evidence :
    (let u':=resolveMethodDispatchV108 (sampleUnity ["A"]) sampleGame
        (some (sampleMetadata "B" [0])) 0x1040 2;
      u'.methodDispatchState = "FAILED" ∧
        u'.methodDispatchError = "v108 image has no retained MethodDefs: B" ∧
        u'.methods.map (·.invokerResolved)=[true]) ∧
    (let u':=resolveMethodDispatchV108 (sampleUnity ["A","C"]) sampleGame
        (some (sampleMetadata "A" [0,0])) 0x1040 2;
      u'.methodDispatchState = "RESOLVED" ∧ u'.methodInvokerResolvedCount=2 ∧
        u'.methods.map (·.invokerResolved)=[true,false]):=by
  decide +kernel

end AutoRefirst.MethodDispatch
