import AutoRefirst.MarshalCanonical

/-!
# Values of marshal objects

What an object stands for is a tree, in which every object that is referred to is written
out. A reference to an object that is still open is a leaf, which names that object by its
distance. The attributes of code objects that the canonical form leaves out are not part
of the tree. The canonical form is a serialisation of the tree.
-/

namespace AutoRefirst.PythonMarshal
open List Option

/-- The content of an object apart from its parts. -/
inductive Label
  | missing
  | enclosing (level : ℕ)
  | constant (k : K)
  | integer (k : K) (iv : ℤ) (blob : Bytes)
  | payload (k : K) (blob : Bytes) (texts : List Bytes)
  | seq (k : K)
  | members (k : K)
  | dict
  | code (argcount posonly kwonly nlocals stacksize flags : ℤ)
  deriving DecidableEq

inductive Value
  | node (label : Label) (parts : List Value)

def CodeData.fields (c : CodeData) : List (Option ℕ) :=
  [c.code,c.consts,c.names] ++
    (if c.varnames.isSome then [c.varnames,c.freevars,c.cellvars]
      else [c.localsplusnames,c.localspluskinds]) ++
    [c.name] ++ (if c.qualname.isSome then [c.qualname] else []) ++
    (if c.exceptiontable.isSome then [c.exceptiontable] else [])

def Node.shape (n : Node) : Option (Label×List (Option ℕ)) :=
  match n.k with
  | .int | .long => some (.integer n.k n.iv n.blob,[])
  | .float | .complex | .bytes | .string => some (.payload n.k n.blob n.texts,[])
  | .tuple | .list | .slice => some (.seq n.k,n.seq.map some)
  | .set | .frozenSet => some (.members n.k,n.seq.map some)
  | .dict => some (.dict,n.dict.flatMap fun kv => [some kv.1,some kv.2])
  | .code => n.code.map fun c =>
    (.code c.argcount c.posonly c.kwonly c.nlocals c.stacksize c.flags,c.fields)
  | k => some (.constant k,[])

variable (ℓ : Label)

/-- The objects that are open inside the object; members of sets are on their own. -/
def Label.opened (active : List ℕ) : List ℕ :=
  match ℓ with
  | .members _ => []
  | _ => active

/-- The value of a reference, with the fuel of the canonical form. -/
def Value.ofHeap (h : Heap) : ℕ → List ℕ → Option ℕ → Option Value
  | 0, _, _ => none
  | _+1, _, none => some (.node .missing [])
  | fuel+1, active, some id =>
    match active.idxOf? id with
    | some level => some (.node (.enclosing level) [])
    | none => do
      let n ← h[id]?
      let (ℓ,parts) ← n.shape
      let vs ← parts.mapM (Value.ofHeap h fuel (ℓ.opened (id::active)))
      return .node ℓ vs

/-- What is written for the label of an object with `n` parts. -/
def Label.header (n : ℕ) : Bytes :=
  match ℓ with
  | .missing => [0xff]
  | .enclosing _ => [0xfe]
  | .constant k => [k.number]
  | .integer k iv blob => k.number::(putU64 iv ++ putBlob blob)
  | .payload k blob _ => k.number :: putBlob blob
  | .seq k => k.number :: putU64 n
  | .members k => k.number :: putU64 n
  | .dict => K.dict.number::putU64 (n/2 : ℕ)
  | .code argcount posonly kwonly nlocals stacksize flags =>
    K.code.number :: (putU32 argcount ++ putU32 posonly ++ putU32 kwonly ++ putU32 nlocals ++
      putU32 stacksize ++ putU32 flags)

def Label.body (parts : List Bytes) : Bytes :=
  match ℓ with
  | .members _ => ((sortBytes parts).map putBlob).flatten
  | _ => parts.flatten

mutual

def Value.bytes : Value → Bytes
  | .node ℓ vs => ℓ.header vs.length ++ ℓ.body (Value.bytesList vs)

def Value.bytesList : List Value → List Bytes
  | [] => []
  | v::vs => v.bytes :: Value.bytesList vs

end

theorem bytesList_eq (vs:List Value) : Value.bytesList vs=vs.map Value.bytes:=by
  induction vs with
  | nil=>rw [Value.bytesList,map_nil]
  | cons v vs ih=>rw [Value.bytesList,ih,map_cons]

theorem bytes_node (vs:List Value) :
    (Value.node ℓ vs).bytes = ℓ.header vs.length++ℓ.body (vs.map Value.bytes):=by
  rw [Value.bytes,bytesList_eq]

theorem mapM_map {α β γ:Type} (f:α→Option β) (g:β→γ) (xs:List α) :
    xs.mapM (fun x=>(f x).map g) = (xs.mapM f).map (List.map g):=by
  induction xs with
  | nil=>rfl
  | cons x xs ih=>
    rw [mapM_cons,mapM_cons,ih]
    cases f x with
    | none=>rfl
    | some y=>cases xs.mapM f <;> rfl

theorem mapM_eq_some {α β:Type} {f:α→Option β} {xs:List α} {ys:List β} :
    xs.mapM f=some ys ↔ List.Forall₂ (fun x y=>f x = some y) xs ys:=by
  induction xs generalizing ys with
  | nil=>simp [eq_comm]
  | cons x xs ih=>
    rw [mapM_cons,forall₂_cons_left_iff]
    constructor
    · intro h
      obtain ⟨y,hy,h₁⟩:=bind_eq_some_iff.mp h
      obtain ⟨zs,hzs,h₂⟩:=bind_eq_some_iff.mp h₁
      exact ⟨y,zs,hy,ih.mp hzs,(some.inj h₂).symm⟩
    · rintro ⟨y,zs,hy,hzs,rfl⟩
      rw [hy,ih.mpr hzs]
      rfl

theorem mapM_length {α β:Type} {f:α→Option β} {xs:List α} {ys:List β}
    (h:xs.mapM f=some ys) : ys.length=xs.length:=(mapM_eq_some.mp h).length_eq.symm

theorem mapM_getElem? {α β:Type} {f:α→Option β} {xs:List α} {ys:List β}
    (h:xs.mapM f=some ys) (i:ℕ) (y:β) (hy:ys[i]? = some y) :
    ∃x,xs[i]? = some x ∧ f x=some y:=by
  obtain ⟨hlen,hall⟩:=forall₂_iff_get.mp (mapM_eq_some.mp h)
  obtain ⟨hlt,rfl⟩:=List.getElem?_eq_some_iff.mp hy
  have hlt' : i<xs.length:=by omega
  exact ⟨xs[i],getElem?_eq_getElem hlt',hall i hlt' hlt⟩

/-- Keys and values one after the other. -/
theorem mapM_pairs {α:Type} (f:Option α→Option Bytes) (kvs:List (α×α)) :
    (kvs.mapM fun (kv:α×α)=>(do
      let k ← f (some kv.1)
      let v ← f (some kv.2)
      return k++v : Option Bytes)).map List.flatten =
      ((kvs.flatMap fun kv=>[some kv.1,some kv.2]).mapM f).map List.flatten:=by
  induction kvs with
  | nil=>rfl
  | cons kv kvs ih=>
    rw [flatMap_cons,cons_append,cons_append,nil_append,mapM_cons, mapM_cons,mapM_cons]
    cases f (some kv.1) with
    | none=>rfl
    | some k=>
      cases f (some kv.2) with
      | none=>rfl
      | some v=>
        generalize (kvs.mapM _ : Option (List Bytes)) = xs at ih ⊢
        generalize (List.mapM f _ : Option (List Bytes)) = ys at ih ⊢
        rcases xs with _ | xs <;> rcases ys with _ | ys
        · rfl
        · simp at ih
        · simp at ih
        · have hflat : xs.flatten=ys.flatten:=some.inj ih
          simp [hflat]

theorem mapM_fields (f:Option ℕ→Option Bytes) (c:CodeData) (numbers:Bytes) (n:Node)
    (hk:n.k=.code) (hc:n.code=some c)
    (hnumbers:numbers = putU32 c.argcount++putU32 c.posonly++putU32 c.kwonly ++
      putU32 c.nlocals++putU32 c.stacksize++putU32 c.flags) (one:Option ℕ→Option Bytes) :
    canonBody f one n = (c.fields.mapM f).map fun bs=>numbers++bs.flatten:=by
  subst hnumbers
  unfold canonBody CodeData.fields
  rw [hk,hc]
  simp only [bind_eq_bind,bind_some,mapM_append]
  cases [c.code,c.consts,c.names].mapM f with
  | none=>rfl
  | some common=>
    simp only [bind_some]
    split_ifs <;>
      simp only [mapM_cons,mapM_nil,bind_eq_bind,Option.pure_def,bind_some,
        bind_assoc,Option.map_bind,Function.comp_def,map_some,flatten_append,
        flatten_cons,flatten_nil,append_nil,append_assoc]

theorem canonBody_eq (f:List ℕ→Option ℕ→Option Value) (opened:List ℕ) (n:Node) :
    (canonBody (fun x=>(f opened x).map Value.bytes) (fun x=>(f [] x).map Value.bytes) n).map
        (n.k.number :: ·) =
      n.shape.bind fun s=>(s.2.mapM (f (s.1.opened opened))).map fun vs=>
        (Value.node s.1 vs).bytes:=by
  have hseq : ∀k,((n.seq.mapM fun x=>(f opened (some x)).map Value.bytes).bind fun xs=>
      some (putU64 n.seq.length++xs.flatten)).map (k.number :: ·) =
        ((n.seq.map some).mapM (f opened)).map fun vs=>(Value.node (.seq k) vs).bytes:=by
    intro k
    rw [mapM_map (fun x=>f opened (some x)),List.mapM_map]
    cases hvs : n.seq.mapM (f opened ∘ some) with
    | none=>
      rw [Function.comp_def] at hvs
      rw [hvs]
      rfl
    | some vs=>
      rw [Function.comp_def] at hvs
      simp only [hvs,map_some,bind_some,bytes_node,Label.header,Label.body,
        mapM_length hvs,cons_append]
  have hmembers : ∀k,((n.seq.mapM fun x=>(f [] (some x)).map Value.bytes).bind fun xs=>
      some (putU64 n.seq.length++((sortBytes xs).map putBlob).flatten)).map (k.number :: ·) =
        ((n.seq.map some).mapM (f [])).map fun vs=>(Value.node (.members k) vs).bytes:=by
    intro k
    rw [mapM_map (fun x=>f [] (some x)),List.mapM_map]
    cases hvs : n.seq.mapM (f [] ∘ some) with
    | none=>
      rw [Function.comp_def] at hvs
      rw [hvs]
      rfl
    | some vs=>
      rw [Function.comp_def] at hvs
      simp only [hvs,map_some,bind_some,bytes_node,Label.header,Label.body,
        mapM_length hvs,cons_append]
  unfold canonBody Node.shape
  cases hk : n.k with
  | tuple=>exact hseq .tuple
  | list=>exact hseq .list
  | slice=>exact hseq .slice
  | set=>exact hmembers .set
  | frozenSet=>exact hmembers .frozenSet
  | dict=>
    have hpairs:=mapM_pairs (fun x=>(f opened x).map Value.bytes) n.dict
    rw [mapM_map (f opened)] at hpairs
    have hlen : (n.dict.flatMap fun kv=>[some kv.1,some kv.2]).length=2*n.dict.length:=by
      induction n.dict with
      | nil=>rfl
      | cons kv kvs ih=>simp [ih,Nat.mul_add]
    have hlhs : ∀m : Option (List Bytes),((m.bind fun xs=>
        some (putU64 n.dict.length++xs.flatten)).map (K.dict.number :: ·)) =
          (m.map List.flatten).map fun b=>K.dict.number::(putU64 n.dict.length++b):=by
      intro m
      cases m <;> rfl
    refine (hlhs _).trans ?_
    rw [hpairs]
    show _ = Option.map (fun vs=>(Value.node .dict vs).bytes)
      ((n.dict.flatMap fun kv=>[some kv.1,some kv.2]).mapM (f opened))
    cases hvs : (n.dict.flatMap fun kv=>[some kv.1,some kv.2]).mapM (f opened) with
    | none=>rfl
    | some vs=>
      have hhalf : vs.length/2=n.dict.length:=by
        rw [mapM_length hvs,hlen]
        omega
      simp only [map_some,bytes_node,Label.header,Label.body,hhalf,cons_append]
  | code=>
    cases hc : n.code with
    | none=>rfl
    | some c=>
      have hfields:=mapM_fields (fun x=>(f opened x).map Value.bytes) c _ n hk hc rfl
        fun x=>(f [] x).map Value.bytes
      unfold canonBody at hfields
      rw [hk,hc,mapM_map (f opened)] at hfields
      refine (congrArg (Option.map (K.code.number :: ·)) hfields).trans ?_
      show _ = Option.map _ (c.fields.mapM (f opened))
      cases c.fields.mapM (f opened) with
      | none=>rfl
      | some vs=>simp only [map_some,bytes_node,Label.header,Label.body,cons_append]
  | _=>simp [bytes_node,Label.header,Label.body]

theorem canon_eq_bytes (h:Heap) (fuel:ℕ) (active:List ℕ) (x:Option ℕ) :
    canon h fuel active x=(Value.ofHeap h fuel active x).map Value.bytes:=by
  induction fuel generalizing active x with
  | zero=>rfl
  | succ fuel ih=>
    cases x with
    | none=>simp [canon,Value.ofHeap,bytes_node,Label.header,Label.body]
    | some id=>
      rw [canon,Value.ofHeap]
      by_cases hid : id∈active
      · obtain ⟨level,hlevel⟩:=isSome_iff_exists.mp (isSome_idxOf?.mpr hid)
        rw [if_pos hid,hlevel]
        simp [bytes_node,Label.header,Label.body]
      · have hlevel : active.idxOf? id=none:=idxOf?_eq_none_iff.mpr hid
        rw [if_neg hid,hlevel]
        have hsub : ∀active,canon h fuel active = fun x=>
            (Value.ofHeap h fuel active x).map Value.bytes:=fun active=>funext (ih active)
        rw [hsub,hsub]
        cases hn : h[id]? with
        | none=>rfl
        | some n=>
          have hbody:=canonBody_eq (Value.ofHeap h fuel) (id::active) n
          have hleft : ∀m : Option Bytes,(m.bind fun body=>some (n.k.number::body)) =
              m.map (n.k.number :: ·):=by
            intro m
            cases m <;> rfl
          refine (hleft _).trans (hbody.trans ?_)
          show _ = Option.map Value.bytes (n.shape.bind fun s=>
            (s.2.mapM (Value.ofHeap h fuel (s.1.opened (id::active)))).bind fun vs=>
              some (Value.node s.1 vs))
          cases n.shape with
          | none=>rfl
          | some s=>
            rw [bind_some,bind_some]
            cases s.2.mapM (Value.ofHeap h fuel (s.1.opened (id::active))) <;> rfl

theorem Value.ofHeap_mono {h:Heap} {fuel fuel':ℕ} (hle:fuel≤fuel') {active:List ℕ}
    {x:Option ℕ} {v:Value} (hv:Value.ofHeap h fuel active x=some v) :
    Value.ofHeap h fuel' active x=some v:=by
  induction fuel generalizing fuel' active x v with
  | zero=>exact absurd hv (by simp [Value.ofHeap])
  | succ fuel ih=>
    obtain ⟨fuel',rfl⟩ : ∃k,fuel'=k+1:=⟨fuel'-1,by omega⟩
    cases x with
    | none=>exact hv
    | some id=>
      rw [Value.ofHeap] at hv ⊢
      cases hlevel : active.idxOf? id with
      | some level=>
        rw [hlevel] at hv
        exact hv
      | none=>
        rw [hlevel] at hv
        obtain ⟨n,hn,h₁⟩:=bind_eq_some_iff.mp hv
        obtain ⟨s,hs,h₂⟩:=bind_eq_some_iff.mp h₁
        obtain ⟨vs,hvs,h₃⟩:=bind_eq_some_iff.mp h₂
        have hvs' : s.2.mapM (Value.ofHeap h fuel' (s.1.opened (id::active)))=some vs:=
          mapM_eq_some.mpr ((mapM_eq_some.mp hvs).imp fun y w hy=>ih (by omega) hy)
        exact bind_eq_some_iff.mpr ⟨n,hn,bind_eq_some_iff.mpr ⟨s,hs,
          bind_eq_some_iff.mpr ⟨vs,hvs',h₃⟩⟩⟩

end AutoRefirst.PythonMarshal
