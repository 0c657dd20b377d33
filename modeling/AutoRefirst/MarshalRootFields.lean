import AutoRefirst.MarshalInversion

/-!
# The root code object of a stream

The reader keeps the numbers of the root code object as they are written, and the report on it has
as many constants and names as were written. The numbers themselves are not in the report.
-/

namespace AutoRefirst.PythonMarshal
open List Option

/-- The object itself, or the one that it refers to. -/
def Written.resolve (marks : List Written) : Written → Option Written
  | .back index => marks[index]?
  | t => some t

/-- The object, where it stands or by reference, is one with `P`. -/
def Written.Is (marks : List Written) (t : Written) (P : Written→Prop) : Prop :=
  ∃ u, t.resolve marks = some u ∧ P u

def Written.IsPlain (k : K) (t : Written) : Prop :=
  ∃ ref tag content, t = .plain ref tag content ∧ PlainContent k tag content

def Written.IsTuple (items : List Written) (t : Written) : Prop :=
  ∃ ref tag, t = .seq ref tag items ∧ seqKind tag = .tuple

structure RootCodeOf (minor : ℤ) (t : Written) (numbers : CodeNumbers)
    (constants names : List Written) : Prop where
  formed : t.Formed minor maxLevels 0
  root : ∃ ref code consts co_names more tail,
    t = .code ref numbers (code :: consts :: co_names::more) tail ∧
      code.Is t.marks (Written.IsPlain .bytes) ∧ consts.Is t.marks (Written.IsTuple constants) ∧
        co_names.Is t.marks (Written.IsTuple names)
  names : ∀ x∈names, x.Is t.marks (Written.IsPlain .string)

/-- The kind of an object without parts. -/
def kindOfTag (tag : Char) : K :=
  let tags := constantTags++fixedTags.map (fun x => (x.1,x.2.1)) ++ stringTags ++
    [(.long,'l'),(.float,'f'),(.complex,'x'),(.string,'z'),(.string,'Z')]
  ((tags.find? fun x => x.2 = tag).map Prod.fst).getD .none

theorem PlainContent.kind_eq {k:K} {tag:Char} {b:Bytes} (h:PlainContent k tag b) :
    k=kindOfTag tag:=by
  cases h with
  | constant h=>
    simp only [constantTags,mem_cons,not_mem_nil,or_false,Prod.mk.injEq] at h
    rcases h with ⟨rfl,rfl⟩ | ⟨rfl,rfl⟩ | ⟨rfl,rfl⟩ | ⟨rfl,rfl⟩ | ⟨rfl,rfl⟩ <;> decide
  | fixed h=>
    simp only [fixedTags,mem_cons,not_mem_nil,or_false,Prod.mk.injEq] at h
    rcases h with ⟨rfl,rfl,-⟩ | ⟨rfl,rfl,-⟩ | ⟨rfl,rfl,-⟩ | ⟨rfl,rfl,-⟩ <;> decide
  | string h=>
    simp only [stringTags,mem_cons,not_mem_nil,or_false,Prod.mk.injEq] at h
    rcases h with ⟨rfl,rfl⟩ | ⟨rfl,rfl⟩ | ⟨rfl,rfl⟩ | ⟨rfl,rfl⟩ | ⟨rfl,rfl⟩ <;> decide
  | short h=>
    simp only [mem_cons,not_mem_nil,or_false] at h
    rcases h with rfl | rfl <;> decide
  | _=>decide

section
variable {minor : ℤ} {L : ℕ→Option Node} {R : List ℕ} {marks : List Written} {id : ℕ} {t : Written}

theorem shownAll_getElem? {ts:List Written} {ids:List ℕ} (h:Written.ShownAll minor L R ts ids)
    {i:ℕ} (ht:ts[i]? = some t) (hid:ids[i]? = some id) :
    t.Shown minor L R id:=by
  induction ts generalizing ids i with
  | nil=>cases ht
  | cons u ts ih=>
    obtain ⟨x,rest,rfl,hu,hts⟩:=h
    cases i with
    | zero=>
      obtain rfl:=some.inj ht
      obtain rfl:=some.inj hid
      exact hu
    | succ i=>exact ih hts ht hid

theorem shown_resolve (hmarks:Written.ShownAll minor L R marks R) {u:Written}
    (h:t.Shown minor L R id) (hu:t.resolve marks=some u) : u.Shown minor L R id:=by
  cases t with
  | back index=>exact shownAll_getElem? hmarks hu h
  | _=>
    obtain rfl:=some.inj hu
    exact h

theorem shown_plain (hmarks:Written.ShownAll minor L R marks R) {k:K} (h:t.Shown minor L R id)
    (ht:t.Is marks (Written.IsPlain k)) :
    ∃n,L id=some n ∧ n.k=k:=by
  obtain ⟨_,hu,ref,tag,content,rfl,hcontent⟩:=ht
  obtain ⟨n,hn,hnk⟩:=shown_resolve hmarks h hu
  exact ⟨n,hn,hnk.kind_eq.trans hcontent.kind_eq.symm⟩

theorem shown_tuple (hmarks:Written.ShownAll minor L R marks R) {items:List Written}
    (h:t.Shown minor L R id) (ht:t.Is marks (Written.IsTuple items)) :
    ∃n,L id=some n ∧ n.k=.tuple ∧ Written.ShownAll minor L R items n.seq:=by
  obtain ⟨_,hu,ref,tag,rfl,htuple⟩:=ht
  obtain ⟨n,hn,hk,hitems⟩:=shown_resolve hmarks h hu
  exact ⟨n,hn,hk.trans htuple,hitems⟩

end

theorem fieldOf_eq {h:Heap} {id:ℕ} {n:Node} {k:K} (hn:h[id]? = some n) (hk:n.k=k) :
    fieldOf h (some id) k=some n:=by
  rw [fieldOf,bind_some,hn,filter_some,if_pos (decide_eq_true hk)]

section
variable {minor : ℤ} {r : Reader} {d : Bytes}

theorem fresh_start {id:ℕ} : fresh (start d minor) r id=r.heap[id]? := if_pos (Nat.zero_le _)

theorem length_constants {ts:List Written} {ids:List ℕ} (hnamed:Named r)
    (h:Written.ShownAll minor (fresh (start d minor) r) r.refs ts ids) :
    ((ids.filterMap (r.heap[·]?)).map scalarOf).length=ts.length:=by
  rw [length_map]
  induction ts generalizing ids with
  | nil=>
    obtain rfl : ids=[]:=h
    rfl
  | cons t ts ih=>
    obtain ⟨id,rest,rfl,ht,hts⟩:=h
    obtain ⟨n,hn,-⟩:=ht.kind hnamed
    rw [filterMap_cons_some hn,length_cons,length_cons,ih hts]

theorem exists_names {marks ts:List Written} {ids:List ℕ}
    (hmarks:Written.ShownAll minor (fresh (start d minor) r) r.refs marks r.refs)
    (h:Written.ShownAll minor (fresh (start d minor) r) r.refs ts ids)
    (htext:∀x∈ts,x.Is marks (Written.IsPlain .string)) :
    ∃names,(ids.mapM fun x=>(r.heap[x]?).bind stringOf) = some names ∧
      names.length=ts.length:=by
  induction ts generalizing ids with
  | nil=>
    obtain rfl : ids=[]:=h
    exact ⟨[],rfl,rfl⟩
  | cons t ts ih=>
    obtain ⟨id,rest,rfl,ht,hts⟩:=h
    obtain ⟨n,hn,hk⟩:=shown_plain hmarks ht (htext t mem_cons_self)
    obtain ⟨names,hnames,hlen⟩:=ih hts fun x hx=>htext x (mem_cons_of_mem _ hx)
    rw [fresh_start] at hn
    have hid : ((r.heap[id]?).bind stringOf)=some n.blob:=by
      rw [hn,bind_some,stringOf,if_pos hk]
    refine ⟨n.blob::names,?_,by rw [length_cons,length_cons,hlen]⟩
    rw [mapM_cons,hid]
    change ((rest.mapM fun x=>(r.heap[x]?).bind stringOf) >>= fun ys=>pure (n.blob::ys)) = _
    rw [hnames]
    rfl

end

/-- The reader over a whole stream of the format. -/
theorem parseRoot_written {minor:ℤ} {t:Written} (h:t.Formed minor maxLevels 0) :
    ∃root r,parseRoot .source (t.encode minor) minor=(some root,r) ∧
      r.p=(t.encode minor).length ∧ Named r ∧
        Written.ShownAll minor (fresh (start (t.encode minor) minor) r) r.refs t.marks r.refs ∧
          t.Shown minor (fresh (start (t.encode minor) minor) r) r.refs root:=by
  obtain ⟨root,r,hrun,hreads⟩:=inverts minor t maxLevels (start (t.encode minor) minor) rfl
    (fun _ hid=>absurd hid not_mem_nil) h ⟨Nat.zero_le _,prefix_refl _⟩
  obtain ⟨new,hnew,hmarks⟩:=hreads.marks
  obtain ⟨_,_,hids,hshown,-⟩:=hreads.shown
  obtain ⟨rfl,-⟩:=List.cons.inj hids
  have hnew : r.refs=new:=hnew
  rw [Written.marksAll,Written.marksAll,append_nil,← hnew] at hmarks
  refine ⟨root,r,hrun,?_,hreads.named,hmarks,hshown⟩
  rw [hreads.p,Written.encodeAll,Written.encodeAll,append_nil]
  exact Nat.zero_add _

/-- The report on a stream of a code object has as many constants and names as the stream, and the
reader has the numbers of the code object. -/
theorem inspect_root_code (t : Written) (version : ℤ) (numbers : CodeNumbers)
    (constants names : List Written)
    (hversion : 8 ≤ minorFromVersion version ∧ minorFromVersion version≤14)
    (h : RootCodeOf (minorFromVersion version) t numbers constants names) :
    let d := t.encode (minorFromVersion version)
    (inspectRootCode d version).valid=true ∧
      (inspectRootCode d version).constants.length=constants.length ∧
        (inspectRootCode d version).names.length=names.length ∧
          ∃root r n c,parseRoot .source d (minorFromVersion version)=(some root,r) ∧
            r.heap[root]? = some n ∧ n.code=some c ∧
              numbers.In (minorFromVersion version) c:=by
  intro d
  obtain ⟨ref,code,consts,co_names,more,tail,ht,hcode,hconsts,hnames⟩:=h.root
  obtain ⟨root,r,hparse,hp,hnamed,hmarks,hshown⟩:=parseRoot_written h.formed
  have hroot:=hshown
  rw [ht] at hroot
  obtain ⟨n,c,ids,hn,hk,hc,hnumbers,hparts,hids⟩:=hroot
  rw [fresh_start] at hn
  obtain ⟨i,_,rfl,hi,hparts⟩:=hparts
  obtain ⟨j,_,rfl,hj,hparts⟩:=hparts
  obtain ⟨l,_,rfl,hl,hparts⟩:=hparts
  obtain ⟨hci,hcj,hcl⟩ : c.code=some i ∧ c.consts=some j ∧ c.names=some l:=by
    simpa using hids
  rw [← ht] at hi hj hl
  obtain ⟨x,hx,hxk⟩:=shown_plain hmarks hi hcode
  obtain ⟨y,hy,hyk,hyseq⟩:=shown_tuple hmarks hj hconsts
  obtain ⟨z,hz,hzk,hzseq⟩:=shown_tuple hmarks hl hnames
  rw [fresh_start] at hx hy hz
  obtain ⟨texts,htexts,hlen⟩:=exists_names hmarks hzseq h.names
  have hreport : inspectRootCode d version =
      { pythonMinor:=minorFromVersion version,valid:=true
        codeOffset:=x.blobOffset,code:=x.blob,constants:=(y.seq.filterMap (r.heap[·]?)).map scalarOf
        names:=texts }:=by
    unfold inspectRootCode
    dsimp only
    rw [if_neg (by omega),hparse]
    dsimp only
    rw [fieldOf_eq hn hk,bind_some,hc]
    dsimp only
    rw [if_neg (not_not.mpr hp),hci,fieldOf_eq hx hxk]
    dsimp only
    rw [hcj,fieldOf_eq hy hyk]
    dsimp only
    rw [hcl,fieldOf_eq hz hzk]
    dsimp only
    rw [htexts]
  rw [hreport]
  exact ⟨rfl,length_constants hnamed hyseq,hlen,root,r,n,c,hparse,hn,hc,hnumbers⟩

/-- A code object of Python 3.8 whose names are the tuple of its constants. -/
def sharedRoot (argcount : ℤ) : Written :=
  .code false ⟨argcount,0,0,2,3,64,7⟩
    [.plain false 's' (putU32 2 ++ [100,0]),.seq true ')' [.plain false 'z' ([1]++[97])],
      .back 0,.back 0,.back 0,.back 0,.plain false 'z' ([0]++[]),
      .plain false 'z' ([0]++[])]
    [.plain false 's' (putU32 0 ++ [])]

theorem sharedRoot_rootCodeOf {argcount:ℤ} (h:Fits32 argcount) :
    RootCodeOf 8 (sharedRoot argcount) ⟨argcount,0,0,2,3,64,7⟩
      [.plain false 'z' ([1]++[97])] [.plain false 'z' ([1]++[97])]:=by
  have hshort : PlainContent .string 'z' ([1]++[97]):= .short (b:=[97]) (by decide) (by decide)
  have hempty : PlainContent .string 'z' ([0]++[]) := .short (b:=[]) (by decide) (by decide)
  have hcode : PlainContent .bytes 's' (putU32 2++[100,0]):=
    .string (b:=[100,0]) (by decide) (by decide)
  have hnone : PlainContent .bytes 's' (putU32 0++[]) := .string (b:=[]) (by decide) (by decide)
  have hfits : Fits32 0 ∧ Fits32 2 ∧ Fits32 3 ∧ Fits32 64 ∧ Fits32 7:=by
    unfold Fits32
    decide
  obtain ⟨h₀,h₂,h₃,h₆₄,h₇⟩:=hfits
  refine ⟨⟨by decide,⟨h,h₀,h₀,h₂,h₃,h₆₄,h₇⟩,rfl,rfl,?_,?_⟩,
    ⟨_,_,_,_,_,_,rfl,⟨_,rfl,_,_,_,rfl,hcode⟩,⟨_,rfl,_,_,rfl,rfl⟩, ⟨_,rfl,_,_,rfl,rfl⟩⟩,?_⟩
  · refine ⟨⟨by decide,_,hcode⟩,⟨by decide,⟨.tuple,by decide⟩,by decide,fun _=>by decide,
      fun h=>absurd h (by decide),⟨by decide,_,hshort⟩,trivial⟩,?_⟩
    have hback : (Written.back 0).Formed 8 500 1:=⟨by decide,by decide,by decide⟩
    exact ⟨hback,hback,hback,hback,⟨by decide,_,hempty⟩,⟨by decide,_,hempty⟩,trivial⟩
  · exact ⟨⟨by decide,_,hnone⟩,trivial⟩
  · intro x hx
    rw [mem_singleton.mp hx]
    exact ⟨_,rfl,_,_,_,rfl,hshort⟩

theorem inspect_root_code_sharedRoot :
    let d:=(sharedRoot 5).encode (minorFromVersion 38)
    (inspectRootCode d 38).valid=true ∧
      (inspectRootCode d 38).constants.length = [Written.plain false 'z' ([1]++[97])].length ∧
        (inspectRootCode d 38).names.length = [Written.plain false 'z' ([1]++[97])].length ∧
          ∃root r n c,parseRoot .source d (minorFromVersion 38)=(some root,r) ∧
            r.heap[root]? = some n ∧ n.code=some c ∧
              (⟨5,0,0,2,3,64,7⟩ : CodeNumbers).In (minorFromVersion 38) c:=
  inspect_root_code (sharedRoot 5) 38 ⟨5,0,0,2,3,64,7⟩ [.plain false 'z' ([1]++[97])]
    [.plain false 'z' ([1]++[97])] (by decide)
    (sharedRoot_rootCodeOf ⟨by decide,by decide⟩)

deriving instance DecidableEq for Scalar

deriving instance DecidableEq for RootCode

/-- The report does not have the argument count. -/
theorem report_without_numbers : ¬ ∃argcount : RootCode → ℤ,
    ∀(t:Written) (version:ℤ) (numbers:CodeNumbers) (constants names:List Written),
      8 ≤ minorFromVersion version ∧ minorFromVersion version≤14 →
        RootCodeOf (minorFromVersion version) t numbers constants names →
          argcount (inspectRootCode (t.encode (minorFromVersion version)) version) =
            numbers.argcount:=by
  rintro ⟨argcount,h⟩
  have hsame : inspectRootCode ((sharedRoot 0).encode 8) 38 =
      inspectRootCode ((sharedRoot 1).encode 8) 38:=by decide +kernel
  have hzero : argcount (inspectRootCode ((sharedRoot 0).encode 8) 38)=0:=
    h (sharedRoot 0) 38 _ _ _ (by decide) (sharedRoot_rootCodeOf ⟨by decide,by decide⟩)
  have hone : argcount (inspectRootCode ((sharedRoot 1).encode 8) 38)=1:=
    h (sharedRoot 1) 38 _ _ _ (by decide) (sharedRoot_rootCodeOf ⟨by decide,by decide⟩)
  rw [hsame,hone] at hzero
  exact absurd hzero (by decide)

end AutoRefirst.PythonMarshal
