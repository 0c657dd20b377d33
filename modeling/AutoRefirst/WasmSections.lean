import AutoRefirst.WasmGrammar

/-!
# What the sections of a WebAssembly module say

The grammar of each section that is parsed, and that its parser takes up just such text.
-/

namespace AutoRefirst.Wasm
open SpanReader List

def FuncType (i : ℕ) : Grammar WasmFuncType := Byte.seq fun form d a c t =>
  form = 0x60 ∧ ∃ b, Vec (fun _ => ValType) d a b t.params ∧
    Vec (fun _ => ValType) d b c t.results ∧ t = typeEntry i t.params t.results

def TypeSection : Grammar (List WasmFuncType×Bool) := fun d a b v =>
  v.2 = true → Vec FuncType d a b v.1

variable (o : WasmInfo)

/-- What a type section adds to what is known. -/
def WasmInfo.typed (ts : List WasmFuncType) (complete : Bool)
    (anomalies : List String) : WasmInfo :=
  {o with types:=o.types++ts,typeParseComplete:=complete,anomalies}

theorem typesFrom_reads (n i:ℕ) (o:WasmInfo) (ho:o.typeParseComplete=true) :
    Reads (typesFrom n i o) fun d a b o'=>∃ts,
      (o'.typeParseComplete=true → Items FuncType d i a b ts ∧ ts.length=n) ∧
        o'=o.typed ts o'.typeParseComplete o'.anomalies:=by
  induction n generalizing i o with
  | zero=>
    apply (Reads.pure o).mono
    rintro d a b v - ⟨rfl,rfl⟩
    exact ⟨[],fun _=>⟨Items.nil i a,rfl⟩,by simp only [WasmInfo.typed,append_nil]⟩
  | succ n ih=>
    have hform : ∀start form,Reads
        (if form≠0x60 then (do
          skipRest
          return { o with
            typeParseComplete:=false,anomalies:=o.anomalies++[unsupportedForm form start] })
        else do
          let params ← vecTypes
          let results ← vecTypes
          typesFrom n (i+1) {o with types:=o.types++[typeEntry i params results]})
        fun d b c o'=>∃ts,(o'.typeParseComplete=true → form=0x60 ∧ ∃e f t xs,
          Vec (fun _=>ValType) d b e t.params ∧ Vec (fun _=>ValType) d e f t.results ∧
            t=typeEntry i t.params t.results ∧ Items FuncType d (i+1) f c xs ∧
              ts=t::xs ∧ xs.length=n) ∧
          o'=o.typed ts o'.typeParseComplete o'.anomalies:=by
      intro start form
      apply Reads.ite
      · intro hform
        apply (Reads.skipRest.bind fun _=>Reads.pure _).mono
        rintro d b c o' - ⟨e,-,-,rfl,rfl⟩
        exact ⟨[],nofun,by simp only [WasmInfo.typed,append_nil]⟩
      · intro hform
        have h:=vecTypes_reads.bind fun params=>vecTypes_reads.bind fun results=>
          ih (i+1) {o with types:=o.types++[typeEntry i params results]} ho
        apply h.mono
        rintro d b c o' - ⟨e,params,hparams,f,results,hresults,xs,hxs,ho'⟩
        refine ⟨typeEntry i params results::xs,fun hcomplete=>?_,?_⟩
        · obtain ⟨hitems,hn⟩:=hxs hcomplete
          exact ⟨not_not.mp hform,e,f,_,xs,hparams,hresults,rfl,hitems,rfl,hn⟩
        · rw [ho']
          simp only [WasmInfo.typed,append_assoc,singleton_append]
    apply (Reads.position.bind fun start=>byte_reads.bind (hform start)).mono
    rintro d a c o' - ⟨b,-,⟨rfl,-⟩,e,form,hbyte,ts,hts,ho'⟩
    refine ⟨ts,fun hcomplete=>?_,ho'⟩
    obtain ⟨rfl,g,f,t,xs,hparams,hresults,ht,hxs,rfl,hn⟩:=hts hcomplete
    exact ⟨Items.cons ⟨e,_,hbyte,rfl,g,hparams,hresults,ht⟩ hxs,by rw [length_cons,hn]⟩

theorem parseTypeSection_reads (ho:o.typeParseComplete=true) (hnone:o.types=[]) :
    Reads (parseTypeSection o) fun d a b o'=>
      TypeSection d a b (o'.types,o'.typeParseComplete) ∧
        o'=o.typed o'.types o'.typeParseComplete o'.anomalies:=by
  have h:=u32_reads.bind fun n=>
    (Reads.require (c:=n≤1000000) (s := "WebAssembly type count unreasonable")).bind
      fun _=>typesFrom_reads n 0 o ho
  apply h.mono
  rintro d a e o' - ⟨b,n,hn,c,-,⟨rfl,-⟩,ts,hts,ho'⟩
  have htypes : o'.types=ts:=by
    rw [ho']
    simp only [WasmInfo.typed,hnone,nil_append]
  rw [htypes]
  refine ⟨fun hcomplete=>?_,ho'⟩
  obtain ⟨hitems,hlen⟩:=hts hcomplete
  exact ⟨b,n,hn,hitems,hlen⟩

def KindByte : Grammar Kind := fun d a b k => b = a+1 ∧ ∃ x, d[a]? = some x ∧ kindOf x = some k

theorem kind_reads (s:String) : Reads (kind s) KindByte:=by
  apply (byte_reads.bind (H:=fun x d a b k=>a=b ∧ kindOf x=some k) ?_).mono
  · rintro d a c k - ⟨b,x,⟨rfl,hx⟩,rfl,hk⟩
    exact ⟨rfl,x,hx,hk⟩
  intro x
  cases h : kindOf x with
  | some k=>
    apply (Reads.pure k).mono
    rintro d a b v - ⟨rfl,rfl⟩
    exact ⟨rfl,rfl⟩
  | none=>exact Reads.fail

def ImportType : Kind → Grammar ℕ
  | .function => U32
  | .table => fun d a b v => TableType d a b () ∧ v = 0
  | .memory => fun d a b v => Limits d a b () ∧ v = 0
  | .global => fun d a b v => GlobalType d a b () ∧ v = 0
  | .tag => fun d a b v => TagType d a b () ∧ v = 0

private theorem reads_zero {m:Parser Unit} {G:Grammar Unit} (h:Reads m G) :
    Reads (do m;return 0 : Parser ℕ) fun d a b v=>G d a b () ∧ v=0:=by
  apply (h.bind fun _=>Reads.pure 0).mono
  rintro d a b v - ⟨c,u,hu,rfl,rfl⟩
  exact ⟨hu,rfl⟩

theorem importType_reads (k:Kind) : Reads (importType k) (ImportType k):=by
  cases k with
  | function=>exact u32_reads
  | table=>exact reads_zero tableType_reads
  | memory=>exact reads_zero limits_reads
  | global=>exact reads_zero globalType_reads
  | tag=>exact reads_zero tagType_reads

/-- An import as it stands in the file. -/
structure ImportEntry where
  (module name : Bytes)
  kind : Kind
  typeIndex : ℕ

def WasmImport.entry (x : WasmImport) : ImportEntry := ⟨x.module,x.name,x.kind,x.typeIndex⟩

def Import : Grammar ImportEntry := Name.seq fun m => Name.seq fun n => KindByte.seq fun k d a b x =>
  x.module = m ∧ x.name = n ∧ x.kind = k ∧ ImportType k d a b x.typeIndex

def Numbered (xs : List WasmImport) : Prop :=
  ∀ i x, xs[i]? = some x → x.index=(xs.take i).countP (·.kind=x.kind)

def ImportSection : Grammar (List WasmImport) := fun d a b v =>
  Vec (fun _ => Import) d a b (v.map WasmImport.entry) ∧ v.length ≤ 1000000 ∧ Numbered v

variable (st : State)

def State.withImports (xs : List WasmImport) : State :=
  { st with
    o:={ st.o with
      imports:=st.o.imports++xs
      importedFunctionCount:=st.o.importedFunctionCount+xs.countP (·.kind = .function) }
    importTypes:=st.importTypes++(xs.filter (·.kind = .function)).map (·.typeIndex) }

def addImport (s : State×(Kind → ℕ)) (x : ImportEntry) : State×(Kind → ℕ) :=
  (s.1.imported x.module x.name x.kind (s.2 x.kind) x.typeIndex,
    Function.update s.2 x.kind (s.2 x.kind + 1))

theorem imported_eq (x:WasmImport) :
    st.imported x.module x.name x.kind x.index x.typeIndex=st.withImports [x]:=by
  obtain ⟨m,n,k,i,t⟩:=x
  unfold State.imported State.withImports
  by_cases h : k=.function
  · subst h
    simp
  · simp [h]

theorem withImports_append (xs ys:List WasmImport) :
    (st.withImports xs).withImports ys=st.withImports (xs++ys):=by
  simp only [State.withImports,append_assoc,countP_append,filter_append, map_append,Nat.add_assoc]

/-- What a run over the entries adds: the entries, numbered on from the counters. -/
theorem foldl_addImport (es:List ImportEntry) (s:State×(Kind → ℕ)) :
    ∃xs,(es.foldl addImport s).1=s.1.withImports xs ∧ xs.map WasmImport.entry=es ∧
      ∀i x,xs[i]? = some x → x.index = s.2 x.kind + (xs.take i).countP (·.kind=x.kind):=by
  induction es generalizing s with
  | nil=>
    refine ⟨[],?_,rfl,nofun⟩
    simp only [foldl_nil,State.withImports,append_nil,countP_nil,Nat.add_zero, filter_nil,map_nil]
  | cons e es ih=>
    obtain ⟨xs,hst,hmap,hidx⟩:=ih (addImport s e)
    let x : WasmImport:=
      { module:=e.module,name:=e.name,kind:=e.kind,index:=s.2 e.kind,typeIndex:=e.typeIndex }
    refine ⟨x::xs,?_,?_,?_⟩
    · rw [foldl_cons,hst]
      have h:=imported_eq s.1 x
      show (s.1.imported e.module e.name e.kind (s.2 e.kind) e.typeIndex).withImports xs = _
      rw [h,withImports_append,singleton_append]
    · rw [map_cons,hmap]
      rfl
    · intro i y hy
      cases i with
      | zero=>
        cases hy
        rfl
      | succ i=>
        rw [hidx i y hy,take_succ_cons,countP_cons]
        by_cases h : y.kind=e.kind
        · simp only [addImport,h,Function.update_self,x,decide_true,if_true]
          omega
        · simp only [addImport,Function.update_of_ne h,x,Ne.symm h,decide_false,
            Bool.false_eq_true,if_false,Nat.add_zero]

theorem parseImportSection_reads : Reads (parseImportSection st) fun d a b st'=>
      ∃xs,ImportSection d a b xs ∧ st'=st.withImports xs:=by
  have hentry : ∀(i:ℕ) (s:State×(Kind → ℕ)),Reads (do
      let module ← name
      let name ← name
      let k ← kind "invalid WebAssembly import kind"
      let typeIndex ← importType k
      return (s.1.imported module name k (s.2 k) typeIndex,
        Function.update s.2 k (s.2 k + 1)) : Parser (State×(Kind → ℕ)))
      fun d a b s'=>∃x,Import d a b x ∧ s'=addImport s x:=by
    intro i s
    have h:=name_reads.bind fun m=>name_reads.bind fun n=>
      (kind_reads "invalid WebAssembly import kind").bind fun k=>(importType_reads k).bind
        fun t=>Reads.pure (s.1.imported m n k (s.2 k) t,Function.update s.2 k (s.2 k + 1))
    apply h.mono
    rintro d a b s' - ⟨c,m,hm,e,n,hn,f,k,hk,g,t,ht,rfl,rfl⟩
    exact ⟨⟨m,n,k,t⟩,⟨c,m,hm,e,n,hn,f,k,hk,rfl,rfl,rfl,ht⟩,rfl⟩
  have h:=u32_reads.bind fun n=>
    (Reads.require (c:=n≤1000000) (s := "WebAssembly import count unreasonable")).bind
      fun _=>(Reads.times (G:=fun _=>Import) hentry n 0 (st,fun _=>0)).bind
        fun s=>Reads.pure s.1
  apply h.mono
  rintro d a e st' - ⟨b,n,hn,c,-,⟨rfl,hmax⟩,f,s,⟨es,hes,hlen,rfl⟩,rfl,rfl⟩
  obtain ⟨xs,hst,hmap,hidx⟩:=foldl_addImport es (st,fun _=>0)
  refine ⟨xs,⟨⟨b,n,hn,hmap▸hes,hmap▸hlen⟩,?_,fun i x hx=>?_⟩,hst⟩
  · rw [← length_map WasmImport.entry,hmap,hlen]
    exact hmax
  · rw [hidx i x hx,Nat.zero_add]

def Export : Grammar WasmExport := Name.seq fun n => KindByte.seq fun k d a b x =>
  x.name = n ∧ x.kind = k ∧ U32 d a b x.index

def ExportSection : Grammar (List WasmExport) := Vec fun _ => Export

/-- What an export section adds to what is known. -/
def WasmInfo.exporting (xs : List WasmExport) : WasmInfo :=
  {o with exports:=o.exports++xs}

theorem foldl_addExport (xs:List WasmExport) (s:WasmInfo×List Bytes) :
    (xs.foldl (fun s x=>(s.1.exporting [x],x.name::s.2)) s).1 = s.1.exporting xs:=by
  induction xs generalizing s with
  | nil=>simp only [foldl_nil,WasmInfo.exporting,append_nil]
  | cons x xs ih=>
    rw [foldl_cons,ih]
    simp only [WasmInfo.exporting,append_assoc,singleton_append]

theorem parseExportSection_reads : Reads (parseExportSection o) fun d a b o'=>
      ∃xs,ExportSection d a b xs ∧ o'=o.exporting xs:=by
  have hentry : ∀(i:ℕ) (s:WasmInfo×List Bytes),Reads (do
      let x ← name
      let k ← kind "invalid WebAssembly export kind"
      let index ← u32
      require (x ∉ s.2) "duplicate WebAssembly export name"
      return ({s.1 with exports:=s.1.exports++[{name:=x,kind:=k,index}]},x::s.2) :
        Parser (WasmInfo×List Bytes))
      fun d a b s'=>∃x,Export d a b x ∧ s'=(s.1.exporting [x],x.name::s.2):=by
    intro i s
    have h:=name_reads.bind fun x=>(kind_reads "invalid WebAssembly export kind").bind fun k=>
      u32_reads.bind fun index=>
        (Reads.require (c:=x ∉ s.2) (s := "duplicate WebAssembly export name")).bind fun _=>
          Reads.pure (s.1.exporting [⟨x,k,index⟩],x::s.2)
    apply h.mono
    rintro d a b s' - ⟨c,x,hx,e,k,hk,f,index,hindex,g,-,⟨rfl,-⟩,rfl,rfl⟩
    exact ⟨⟨x,k,index⟩,⟨c,x,hx,e,k,hk,rfl,rfl,hindex⟩,rfl⟩
  have h:=u32_reads.bind fun n=>
    (Reads.require (c:=n≤1000000) (s := "WebAssembly export count unreasonable")).bind
      fun _=>(Reads.times (G:=fun _=>Export) hentry n 0 (o,[])).bind
        fun s=>Reads.pure s.1
  apply h.mono
  rintro d a e o' - ⟨b,n,hn,c,-,⟨rfl,-⟩,f,s,⟨xs,hxs,hlen,rfl⟩,rfl,rfl⟩
  exact ⟨xs,⟨b,n,hn,hxs,hlen⟩,foldl_addExport xs (o,[])⟩

def FunctionSection : Grammar (List ℕ) := fun d a b v =>
  Vec (fun _ => U32) d a b v ∧ v.length ≤ 10000000

theorem parseFunctionSection_reads : Reads (parseFunctionSection st) fun d a b st'=>
      ∃ts,FunctionSection d a b ts ∧
        st' = { st with
          o:={st.o with definedFunctionCount:=ts.length}
          definedTypes:=st.definedTypes++ts }:=by
  have h:=u32_reads.bind fun n=>
    (Reads.require (c:=n≤10000000) (s := "WebAssembly function count unreasonable")).bind
      fun _=>(u32_reads.collect n st.definedTypes).bind fun ts=>Reads.pure
        ({st with o:={st.o with definedFunctionCount:=n},definedTypes:=ts} : State)
  apply h.mono
  rintro d a e st' - ⟨b,n,hn,c,-,⟨rfl,hmax⟩,f,-,⟨ts,hts,rfl,rfl⟩,rfl,rfl⟩
  exact ⟨ts,⟨⟨b,_,hn,hts,rfl⟩,hmax⟩,rfl⟩

def Local : Grammar Unit := U32.seq fun _ d a b _ => ∃ t, ValType d a b t

/-- A size and as many bytes: the declarations of locals lie inside, and the last is `end`. -/
def Body : Grammar (ℕ×ℕ) := U32.seq fun sz d a b v =>
  sz ≠ 0 ∧ b = a+sz ∧ v = (a,sz) ∧ d[b-1]? = some 0x0b ∧
    ∃ e ls, e ≤ b ∧ Vec (fun _ => Local) d a e ls

theorem local_reads : Reads local_ Local:=by
  apply (u32_reads.bind fun _=>valtype_reads.bind fun _=>Reads.pure ()).mono
  rintro d a b v - ⟨c,n,hn,e,t,ht,rfl,-⟩
  exact ⟨c,n,hn,t,ht⟩

theorem locals_reads : Reads locals fun d a b _=>∃ls,Vec (fun _=>Local) d a b ls:=by
  have hentry : ∀(_:ℕ) (_:Unit),Reads local_ fun d a b s'=>
      ∃x,Local d a b x ∧ s'=(fun _ _=>()) () x:=by
    intro _ _
    apply local_reads.mono
    rintro d a b v - hv
    exact ⟨v,hv,rfl⟩
  have h:=u32_reads.bind fun n=>
    (Reads.require (c:=n≤1000000)
      (s := "WebAssembly local declaration group count unreasonable")).bind
      fun _=>@Reads.times _ _ _ (fun _=>Local) (fun _ _=>()) hentry n 0 ()
  apply h.mono
  rintro d a e v - ⟨b,n,hn,c,-,⟨rfl,-⟩,ls,hls,hlen,-⟩
  exact ⟨ls,b,n,hn,hls,hlen⟩

theorem codeBody_reads : Reads codeBody Body:=by
  apply u32_reads.bind
  intro sz r v r' hrun hr
  rw [position_bind,spanEnd_bind,run_bind] at hrun
  obtain ⟨_,r₁,hroom,hrun⟩:=hrun
  obtain ⟨rfl,hfits⟩:=require_run hroom
  obtain ⟨_,r₂,hsize,hrun⟩:=run_bind.mp hrun
  obtain ⟨rfl,hne⟩:=require_run hsize
  obtain ⟨ls,r₃,hlocals,hrun⟩:=run_bind.mp hrun
  obtain ⟨rfl,r₄,hlocals⟩:=within_run hlocals
  obtain ⟨last,r₅,hlast,hrun⟩:=run_bind.mp hrun
  obtain ⟨rfl,rfl⟩:=Prod.mk.inj (Except.ok.inj hlast)
  have hinside : r.p+sz ≤ r.stop:=by
    have:=hr.inside
    omega
  have hbounded:=Nat.le_trans hinside hr.bounded
  split at hrun
  case isTrue=>cases hrun
  case isFalse hend=>
    obtain ⟨_,r₆,hmove,hrun⟩:=run_bind.mp hrun
    obtain ⟨-,rfl⟩:=Prod.mk.inj (Except.ok.inj hmove)
    obtain ⟨rfl,rfl⟩:=run_pure.mp hrun
    have hover:=Reader.over_ok (Nat.le_add_right r.p sz) hbounded
    obtain ⟨hto,ls,hls⟩:=locals_reads _ _ _ hlocals hover
    have hstop : r₄.p ≤ r.p+sz:=by
      have:=hto.inside
      rwa [Reader.over_eq hbounded] at this
    refine ⟨⟨rfl,rfl,Nat.le_add_right _ _,hinside⟩,hne,rfl,rfl,?_,r₄.p,ls,hstop,hls⟩
    have hlt : r.p+sz-1 < r.d.length:=by omega
    show r.d[r.p+sz-1]? = _
    rw [getElem?_eq_getElem hlt,← not_not.mp hend,getD_eq_getElem _ _ hlt]

def CodeSection : Grammar (List (ℕ×ℕ)) := Vec fun _ => Body

theorem parseCodeSection_reads (bodies:List (ℕ×ℕ)) : Reads (parseCodeSection bodies) fun d a b v=>
      ∃xs,CodeSection d a b xs ∧ v=bodies++xs:=by
  have h:=u32_reads.bind fun n=>
    (Reads.require (c:=n≤10000000) (s := "WebAssembly code count unreasonable")).bind
      fun _=>codeBody_reads.collect n bodies
  apply h.mono
  rintro d a e v - ⟨b,n,hn,c,-,⟨rfl,-⟩,xs,hxs,hlen,rfl⟩
  exact ⟨xs,⟨b,n,hn,hxs,hlen⟩,rfl⟩

/-- One instruction of a constant expression, after its opcode. -/
def Constant (op : UInt8) (d : Bytes) (a b : ℕ) : Prop :=
  if op = 0x41 then ∃ v, Signed 32 d a b v
  else if op = 0x42 then ∃ v, Signed 64 d a b v
  else if op = 0x43 then b = a+4
  else if op = 0x44 then b = a+8
  else if op = 0x23 ∨ op = 0xd2 then ∃ x, U32 d a b x
  else op = 0xd0 ∧ ∃ v, Signed 33 d a b v

/-- Instructions up to `end`. -/
inductive InitExpr (d : Bytes) : ℕ → ℕ → Prop
  | done {a : ℕ} : d[a]? = some 0x0b → InitExpr d a (a+1)
  | more {a b c : ℕ} {op : UInt8} : d[a]? = some op → op≠0x0b → Constant op d (a+1) b →
      InitExpr d b c → InitExpr d a c

theorem constant_reads (op:UInt8) : Reads (constant op) fun d a b _=>Constant op d a b:=by
  unfold constant Constant
  split
  · apply ((s64_reads 32).bind fun v=>Reads.pure (some v)).mono
    rintro d a b x - ⟨c,v,hv,rfl,-⟩
    exact ⟨v,hv⟩
  split
  · apply ((s64_reads 64).bind fun v=>Reads.pure none).mono
    rintro d a b x - ⟨c,v,hv,rfl,-⟩
    exact ⟨v,hv⟩
  split
  · apply (Reads.needed "WebAssembly structure truncated" 4 fun _=>Reads.pure none).mono
    rintro d a b x - ⟨c,v,⟨hv,-⟩,rfl,-⟩
    exact hv
  split
  · apply (Reads.needed "WebAssembly structure truncated" 8 fun _=>Reads.pure none).mono
    rintro d a b x - ⟨c,v,⟨hv,-⟩,rfl,-⟩
    exact hv
  split
  · apply (u32_reads.bind fun _=>Reads.pure none).mono
    rintro d a b x - ⟨c,v,hv,rfl,-⟩
    exact ⟨v,hv⟩
  split
  case isTrue hop=>
    apply ((s64_reads 33).bind fun _=>Reads.pure none).mono
    rintro d a b x - ⟨c,v,hv,rfl,-⟩
    exact ⟨hop,v,hv⟩
  case isFalse=>exact Reads.fail

theorem initFrom_reads (fuel:ℕ) (first:Bool) (known:Option ℤ) :
    Reads (initFrom fuel first known) fun d a b _=>InitExpr d a b:=by
  induction fuel generalizing first known with
  | zero=>exact Reads.fail
  | succ fuel ih=>
    have hturn : ∀op,Reads
        (if op=0x0b then (return known:Parser (Option ℤ))
        else do
          let v ← constant op
          initFrom fuel false (if first then v else known))
        fun d a c _=>if op=0x0b then a = c else ∃b,Constant op d a b ∧ InitExpr d b c:=by
      intro op
      apply Reads.ite
      · intro hop
        apply (Reads.pure known).mono
        rintro d a b v - ⟨rfl,-⟩
        rw [if_pos hop]
      · intro hop
        apply ((constant_reads op).bind fun v=>ih false (if first then v else known)).mono
        rintro d a c w - ⟨b,v,hv,hrest⟩
        rw [if_neg hop]
        exact ⟨b,hv,hrest⟩
    intro r v r' hrun hr
    rw [initFrom,position_bind,spanEnd_bind] at hrun
    split at hrun
    case isFalse=>cases hrun
    case isTrue=>
      obtain ⟨hto,b,op,⟨rfl,hop⟩,h⟩:=(byte_reads.bind hturn) r v r' hrun hr
      refine ⟨hto,?_⟩
      split at h
      case isTrue hend=>
        rw [hend] at hop
        exact h▸InitExpr.done hop
      case isFalse hend=>
        obtain ⟨b,hconst,hrest⟩:=h
        exact InitExpr.more hop hend hconst hrest

theorem initExpr_reads : Reads initExpr fun d a b _=>InitExpr d a b:=by
  intro r v r' hrun hr
  rw [initExpr,position_bind,spanEnd_bind] at hrun
  exact initFrom_reads _ _ _ r v r' hrun hr

def DataMode (mode : ℕ) (passive : Bool) (memoryIndex : ℕ) (d : Bytes) (a c : ℕ) : Prop :=
  if mode = 0 then passive = false ∧ memoryIndex = 0 ∧ InitExpr d a c
  else if mode = 1 then passive = true ∧ memoryIndex = 0 ∧ a = c
  else mode = 2 ∧ passive=false ∧ ∃ b, U32 d a b memoryIndex ∧ InitExpr d b c

def DataSegment (i : ℕ) : Grammar WasmDataSegment := U32.seq fun mode d a e s =>
  s.index = i ∧ ∃ b, DataMode mode s.passive s.memoryIndex d a b ∧
    U32 d b s.dataOffset s.size ∧ e = s.dataOffset+s.size

def DataSection : Grammar (List WasmDataSegment×Bool) := fun d a b v =>
  v.2 = true → Vec DataSegment d a b v.1

theorem dataMode_reads {mode:ℕ} (hmode:¬2 < mode) :
    Reads (dataMode mode) fun d a b v=>DataMode mode v.1 v.2.1 d a b:=by
  unfold dataMode
  split
  case isTrue h=>
    apply (initExpr_reads.bind fun off=>Reads.pure (false,0,off)).mono
    rintro d a b v - ⟨c,off,hoff,rfl,rfl⟩
    simp only [DataMode,h,if_true,true_and]
    exact hoff
  split
  case isTrue h=>
    apply (Reads.pure (true,0,none)).mono
    rintro d a b v - ⟨rfl,rfl⟩
    simp [DataMode,h]
  case isFalse h₀ h₁=>
    have h:=u32_reads.bind fun memoryIndex=>initExpr_reads.bind fun off=>
      Reads.pure (false,memoryIndex,off)
    apply h.mono
    rintro d a b v - ⟨c,m,hm,e,off,hoff,rfl,rfl⟩
    simp only [DataMode,h₀,h₁,if_false,true_and]
    exact ⟨by omega,c,hm,hoff⟩

/-- What a data section adds to what is known. -/
def WasmInfo.filled (ss : List WasmDataSegment) (complete : Bool)
    (anomalies : List String) : WasmInfo :=
  {o with dataSegments:=o.dataSegments++ss,dataParseComplete:=complete,anomalies}

theorem dataFrom_segment_reads {n i:ℕ} {o:WasmInfo} (ho:o.dataParseComplete=true)
    (ih:∀(i:ℕ) (o:WasmInfo),o.dataParseComplete=true → Reads (dataFrom n i o) fun d a b o'=>∃ss,
        (o'.dataParseComplete=true → Items DataSegment d i a b ss ∧ ss.length=n) ∧
          o'=o.filled ss o'.dataParseComplete o'.anomalies) (mode:ℕ) : Reads
    (if 2 < mode then skipRest >>= fun _=>pure { o with
        dataParseComplete:=false
        anomalies:=o.anomalies++["data section uses unsupported future segment mode"] }
      else dataMode mode >>= fun v=>u32 >>= fun sz=>position >>= fun at_=>
        takeLeft "WebAssembly data payload out of bounds" sz >>= fun _=>
          dataFrom n (i+1) (o.filled [dataEntry i v.1 v.2.1 v.2.2 at_ sz]
            o.dataParseComplete o.anomalies))
    fun d a e o'=>∃ss,(o'.dataParseComplete=true → ∃b s xs,
      DataMode mode s.passive s.memoryIndex d a b ∧ U32 d b s.dataOffset s.size ∧
        s.index=i ∧ Items DataSegment d (i+1) (s.dataOffset+s.size) e xs ∧ ss=s::xs ∧ xs.length=n) ∧
      o'=o.filled ss o'.dataParseComplete o'.anomalies:=by
  apply Reads.ite
  · intro hmode
    apply (Reads.skipRest.bind fun _=>Reads.pure _).mono
    rintro d b c o' - ⟨e,-,-,rfl,rfl⟩
    exact ⟨[],nofun,by simp only [WasmInfo.filled,append_nil]⟩
  · intro hmode
    have h:=(dataMode_reads hmode).bind fun v=>u32_reads.bind fun sz=>
      Reads.position.bind fun at_=>
        (Reads.takeLeft "WebAssembly data payload out of bounds" sz).bind fun _=>
          ih (i+1) (o.filled [dataEntry i v.1 v.2.1 v.2.2 at_ sz] o.dataParseComplete
            o.anomalies) ho
    apply h.mono
    rintro d a e o' - ⟨b,v,hv,c,sz,hsz,_,at_,⟨rfl,rfl⟩,g,_,⟨rfl,-⟩,xs,hxs,ho'⟩
    refine ⟨dataEntry i v.1 v.2.1 v.2.2 at_ sz::xs,fun hcomplete=>?_,?_⟩
    · obtain ⟨hitems,hn⟩:=hxs hcomplete
      exact ⟨b,_,xs,hv,hsz,rfl,hitems,rfl,hn⟩
    · rw [ho']
      simp only [WasmInfo.filled,append_assoc,singleton_append]

theorem dataFrom_reads (n i:ℕ) (o:WasmInfo) (ho:o.dataParseComplete=true) :
    Reads (dataFrom n i o) fun d a b o'=>∃ss,
      (o'.dataParseComplete=true → Items DataSegment d i a b ss ∧ ss.length=n) ∧
        o'=o.filled ss o'.dataParseComplete o'.anomalies:=by
  induction n generalizing i o with
  | zero=>
    apply (Reads.pure o).mono
    rintro d a b v - ⟨rfl,rfl⟩
    exact ⟨[],fun _=>⟨Items.nil i a,rfl⟩,by simp only [WasmInfo.filled,append_nil]⟩
  | succ n ih=>
    apply (u32_reads.bind (dataFrom_segment_reads ho ih)).mono
    rintro d a e o' - ⟨b,mode,hmode,ss,hss,ho'⟩
    refine ⟨ss,fun hcomplete=>?_,ho'⟩
    obtain ⟨c,s,xs,hhead,hsize,hindex,hxs,rfl,hn⟩:=hss hcomplete
    exact ⟨Items.cons ⟨b,mode,hmode,hindex,c,hhead,hsize,rfl⟩ hxs, by rw [length_cons,hn]⟩

theorem parseDataSection_reads (ho:o.dataParseComplete=true) (hnone:o.dataSegments=[]) :
    Reads (parseDataSection o) fun d a b o'=>
      DataSection d a b (o'.dataSegments,o'.dataParseComplete) ∧
        o'=o.filled o'.dataSegments o'.dataParseComplete o'.anomalies:=by
  have h:=u32_reads.bind fun n=>
    (Reads.require (c:=n≤1000000) (s := "WebAssembly data segment count unreasonable")).bind
      fun _=>dataFrom_reads n 0 o ho
  apply h.mono
  rintro d a e o' - ⟨b,n,hn,c,-,⟨rfl,-⟩,ss,hss,ho'⟩
  have hsegments : o'.dataSegments=ss:=by
    rw [ho']
    simp only [WasmInfo.filled,hnone,nil_append]
  rw [hsegments]
  refine ⟨fun hcomplete=>?_,ho'⟩
  obtain ⟨hitems,hlen⟩:=hss hcomplete
  exact ⟨b,n,hn,hitems,hlen⟩

end AutoRefirst.Wasm
