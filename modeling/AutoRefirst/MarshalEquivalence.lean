import AutoRefirst.MarshalSerialisation

/-!
# Values with the same serialisation

Two values are the same up to the order of sets when their labels are related and their
parts are the same. With labels that are written alike this is what the serialisation
tells apart.
-/

namespace AutoRefirst.PythonMarshal
open List Option

inductive Same (E : Label→Label→Prop) : Value → Value → Prop
  | node {ℓ ℓ' : Label} {vs vs' ws : List Value} :
      E ℓ ℓ' → (ws=vs' ∨ (ℓ.unordered=true ∧ ws.Perm vs')) → vs.length=ws.length →
        (∀ (i : ℕ) (v w : Value), vs[i]? = some v → ws[i]? = some w → Same E v w) →
          Same E (.node ℓ vs) (.node ℓ' vs')

theorem getElem?_of_forall₂ {α:Type} {R:α→α→Prop} {xs ys:List α} (h:List.Forall₂ R xs ys)
    (i:ℕ) (x y:α) (hx:xs[i]? = some x) (hy:ys[i]? = some y) : R x y:=by
  obtain ⟨hltx,rfl⟩:=List.getElem?_eq_some_iff.mp hx
  obtain ⟨hlty,rfl⟩:=List.getElem?_eq_some_iff.mp hy
  exact (forall₂_iff_get.mp h).2 i hltx hlty

theorem Same.bytes_eq {v v':Value} (h:Same Label.Stored v v') : v.bytes=v'.bytes:=by
  induction h with
  | @node ℓ ℓ' vs vs' ws hℓ horder hlen _ ih=>
    have hparts : vs.map Value.bytes=ws.map Value.bytes:=by
      apply ext_getElem?
      intro i
      rw [getElem?_map,getElem?_map]
      by_cases hi : i<vs.length
      · have hi' : i<ws.length:=by omega
        rw [getElem?_eq_getElem hi,getElem?_eq_getElem hi',map_some,map_some,
          ih i _ _ (getElem?_eq_getElem hi) (getElem?_eq_getElem hi')]
      · rw [getElem?_eq_none (by omega),getElem?_eq_none (by omega)]
    rw [bytes_node,bytes_node,header_congr hℓ,hparts]
    rcases horder with rfl | ⟨hset,hperm⟩
    · rw [hlen,body_congr hℓ]
    · have hset' : ℓ'.unordered=true:=by cases hℓ <;> exact hset
      rw [hlen,hperm.length_eq,body_unordered hset,body_unordered hset',
        sortBytes_eq_of_perm (hperm.map Value.bytes)]

theorem bytes_pos {fields:ℕ} {ℓ : Label} {vs:List Value} (h:ℓ.Sized fields vs.length) :
    0<(ℓ.header vs.length).length:=by
  obtain ⟨b,t,hb,-⟩:=header_head h
  rw [hb,length_cons]
  omega

theorem members_inj {fields k:ℕ}
    (inj:∀(v v':Value) (s s':Bytes),v.Sized fields → v'.Sized fields → v.bytes.length<k →
      v.bytes++s = v'.bytes++s' → Same Label.Stored v v' ∧ s=s')
    {us us':List Value} {s s':Bytes} (hu:∀u∈us,u.Sized fields ∧ u.bytes.length<k)
    (hu':∀u∈us',u.Sized fields) (hlen:us.length=us'.length)
    (h:((us.map Value.bytes).map putBlob).flatten++s =
      ((us'.map Value.bytes).map putBlob).flatten++s') :
    List.Forall₂ (Same Label.Stored) us us' ∧ s=s':=by
  induction us generalizing us' with
  | nil=>
    obtain rfl : us'=[]:=length_eq_zero_iff.mp hlen.symm
    exact ⟨.nil,h⟩
  | cons u us ih=>
    obtain ⟨u',us',rfl⟩:=exists_cons_of_length_eq_add_one hlen.symm
    rw [forall_mem_cons] at hu hu'
    simp only [map_cons,flatten_cons,putBlob,append_assoc] at h
    obtain ⟨-,hrest⟩:=append_inj h (by rw [putU64_length,putU64_length])
    obtain ⟨hsame,htail⟩:=inj u u' _ _ hu.1.1 hu'.1 hu.1.2 hrest
    obtain ⟨hall,hs⟩:=ih hu.2 hu'.2 (Nat.succ.inj hlen) htail
    exact ⟨.cons hsame hall,hs⟩

theorem length_flatten_map_putBlob (xs:List Bytes) (x:Bytes) (hx:x∈xs) :
    x.length≤(xs.map putBlob).flatten.length:=by
  induction xs with
  | nil=>exact absurd hx (by simp)
  | cons y ys ih=>
    rw [map_cons,flatten_cons,length_append,putBlob,length_append]
    rcases mem_cons.mp hx with rfl | hx
    · omega
    · have:=ih hx
      omega

theorem bytes_flatten_append (vs ws:List Value) (s:Bytes) : ((vs++ws).map Value.bytes).flatten++s =
      (vs.map Value.bytes).flatten++((ws.map Value.bytes).flatten++s):=by
  rw [map_append,flatten_append,append_assoc]

theorem forall₂_of_append {α:Type} {R:α→α→Prop} {xs xs' ys ys':List α}
    (hlen:xs.length=xs'.length) (h:List.Forall₂ R (xs++ys) (xs'++ys')) :
    List.Forall₂ R xs xs' ∧ List.Forall₂ R ys ys':=by
  have htake:=forall₂_take xs.length h
  have hdrop:=forall₂_drop xs.length h
  rw [take_left,hlen,take_left] at htake
  rw [drop_left,hlen,drop_left] at hdrop
  exact ⟨htake,hdrop⟩

/-- Values one after the other can be read back. -/
theorem forest_inj (fields:ℕ) (n:ℕ) {vs vs':List Value} {s s':Bytes}
    (hv:∀v∈vs,v.Sized fields) (hv':∀v∈vs',v.Sized fields) (hlen:vs.length=vs'.length)
    (hn:(vs.map Value.bytes).flatten.length<n)
    (h:(vs.map Value.bytes).flatten++s=(vs'.map Value.bytes).flatten++s') :
    List.Forall₂ (Same Label.Stored) vs vs' ∧ s=s':=by
  induction n generalizing vs vs' s s' with
  | zero=>exact absurd hn (Nat.not_lt_zero _)
  | succ n ih=>
    cases vs with
    | nil=>
      obtain rfl : vs'=[]:=length_eq_zero_iff.mp hlen.symm
      exact ⟨.nil,h⟩
    | cons v rest=>
      obtain ⟨v',rest',rfl⟩:=exists_cons_of_length_eq_add_one hlen.symm
      rw [forall_mem_cons] at hv hv'
      obtain ⟨⟨hℓ,hws⟩,hrest⟩:=hv
      obtain ⟨⟨hℓ',hws'⟩,hrest'⟩:=hv'
      next ℓ ws ℓ' ws'=>
      rw [map_cons,flatten_cons,bytes_node,length_append,length_append] at hn
      rw [map_cons,map_cons,flatten_cons,flatten_cons,bytes_node,bytes_node] at h
      simp only [append_assoc] at h
      have hpos:=bytes_pos hℓ
      obtain ⟨hstored,hbody,hcount⟩:=header_inj hℓ hℓ' h
      have hcount' : ws.length=ws'.length:=by omega
      cases hset : ℓ.unordered with
      | false=>
        have hset' : ℓ'.unordered=false:=by cases hstored <;> exact hset
        rw [body_ordered hset] at hn
        rw [body_ordered hset,body_ordered hset',← bytes_flatten_append,← bytes_flatten_append] at hbody
        have hall : ∀v∈ws++rest,v.Sized fields:=forall_mem_append.mpr ⟨hws,hrest⟩
        have hall' : ∀v∈ws'++rest',v.Sized fields:=forall_mem_append.mpr ⟨hws',hrest'⟩
        have hless : ((ws++rest).map Value.bytes).flatten.length<n:=by
          rw [map_append,flatten_append,length_append]
          omega
        have hlen' : (ws++rest).length=(ws'++rest').length:=by
          rw [length_append,length_append,hcount',Nat.succ.inj hlen]
        obtain ⟨hsame,hs⟩:=ih hall hall' hlen' hless hbody
        obtain ⟨hparts,htail⟩:=forall₂_of_append hcount' hsame
        refine ⟨.cons (.node hstored (Or.inl rfl) hcount' ?_) htail,hs⟩
        exact getElem?_of_forall₂ hparts
      | true=>
        have hset' : ℓ'.unordered=true:=by cases hstored <;> exact hset
        obtain ⟨us,hus,hsort⟩:=sortBytes_map ws
        obtain ⟨us',hus',hsort'⟩:=sortBytes_map ws'
        rw [body_unordered hset,← hsort] at hn
        rw [body_unordered hset,body_unordered hset',← hsort,← hsort'] at hbody
        have hsmall : ∀u∈us,u.Sized fields ∧ u.bytes.length<n:=by
          intro u hu
          have hle:=length_flatten_map_putBlob (us.map Value.bytes) u.bytes (List.mem_map_of_mem hu)
          exact ⟨hws u (hus.mem_iff.mp hu),by omega⟩
        have hsized : ∀u∈us',u.Sized fields:=fun u hu=>hws' u (hus'.mem_iff.mp hu)
        have hlen' : us.length=us'.length:=by
          rw [hus.length_eq,hus'.length_eq,hcount']
        have hone : ∀(v v':Value) (s s':Bytes),v.Sized fields → v'.Sized fields →
            v.bytes.length<n → v.bytes++s=v'.bytes++s' → Same Label.Stored v v' ∧ s=s':=by
          intro v v' s s' hv hv' hlt heq
          obtain ⟨hsame,hs⟩:=@ih [v] [v'] s s' (by simpa using hv) (by simpa using hv') rfl
            (by simpa using hlt) (by simpa using heq)
          exact ⟨(forall₂_cons.mp hsame).1,hs⟩
        obtain ⟨hmembers,htail⟩:=members_inj hone hsmall hsized hlen' hbody
        obtain ⟨hsame,hs⟩:=ih hrest hrest' (Nat.succ.inj hlen) (by omega) htail
        obtain ⟨zs,hzs,hperm⟩:=perm_comp_forall₂ hus.symm hmembers
        refine ⟨.cons (.node hstored (Or.inr ⟨hset,hperm.trans hus'⟩) hzs.length_eq ?_) hsame,hs⟩
        exact getElem?_of_forall₂ hzs

/-- Strings that fit their length field can be read back. -/
theorem putBlob_flatten_inj {xs xs':List Bytes} {s s':Bytes} (hlen:xs.length=xs'.length)
    (hx:∀x∈xs,x.length<2^64) (hx':∀x∈xs',x.length<2^64)
    (h:(xs.map putBlob).flatten++s=(xs'.map putBlob).flatten++s') : s=s':=by
  induction xs generalizing xs' with
  | nil=>
    obtain rfl : xs'=[]:=length_eq_zero_iff.mp hlen.symm
    exact h
  | cons x xs ih=>
    obtain ⟨x',xs',rfl⟩:=exists_cons_of_length_eq_add_one hlen.symm
    rw [forall_mem_cons] at hx hx'
    simp only [map_cons,flatten_cons,append_assoc] at h
    obtain ⟨-,hrest⟩:=putBlob_append_inj hx.1 hx'.1 h
    exact ih (Nat.succ.inj hlen) hx.2 hx'.2 hrest

/-- Where code objects have more fields, fewer values fill the same bytes. -/
theorem forest_length_le {fields fields':ℕ} (hfields:fields≤fields') (n:ℕ)
    {vs vs':List Value} (hv:∀v∈vs,v.Sized fields) (hv':∀v∈vs',v.Sized fields')
    (hn:(vs.map Value.bytes).flatten.length<n) (hsize:(vs.map Value.bytes).flatten.length<2^64)
    (h:(vs.map Value.bytes).flatten=(vs'.map Value.bytes).flatten) : vs'.length≤vs.length:=by
  induction n generalizing vs vs' with
  | zero=>exact absurd hn (Nat.not_lt_zero _)
  | succ n ih=>
    cases vs' with
    | nil=>exact Nat.zero_le _
    | cons v' rest'=>
      rw [forall_mem_cons] at hv'
      obtain ⟨⟨hℓ',hws'⟩,hrest'⟩:=hv'
      next ℓ' ws'=>
      have hpos':=bytes_pos hℓ'
      cases vs with
      | nil=>
        have hlen:=congrArg List.length h
        rw [map_cons,flatten_cons,bytes_node,length_append,length_append,
          map_nil,flatten_nil,length_nil] at hlen
        omega
      | cons v rest=>
        rw [forall_mem_cons] at hv
        obtain ⟨⟨hℓ,hws⟩,hrest⟩:=hv
        next ℓ ws=>
        have hlen:=congrArg List.length h
        rw [map_cons,flatten_cons,bytes_node,length_append,length_append] at hn hsize
        rw [map_cons,map_cons,flatten_cons,flatten_cons,bytes_node,bytes_node] at h
        simp only [append_assoc] at h
        have hpos:=bytes_pos hℓ
        obtain ⟨hstored,hbody,hcount⟩:=header_inj hℓ hℓ' h
        have hcount' : ws.length≤ws'.length:=by omega
        rw [length_cons,length_cons]
        cases hset : ℓ.unordered with
        | false=>
          have hset' : ℓ'.unordered=false:=by cases hstored <;> exact hset
          rw [body_ordered hset] at hn hsize
          rw [body_ordered hset,body_ordered hset',← flatten_append,← flatten_append,
            ← map_append,← map_append] at hbody
          have hall : ∀v∈ws++rest,v.Sized fields:=forall_mem_append.mpr ⟨hws,hrest⟩
          have hall' : ∀v∈ws'++rest',v.Sized fields':=forall_mem_append.mpr ⟨hws',hrest'⟩
          have hless : ((ws++rest).map Value.bytes).flatten.length<n ∧
              ((ws++rest).map Value.bytes).flatten.length<2^64:=by
            rw [map_append,flatten_append,length_append]
            omega
          have hle:=ih hall hall' hless.1 hless.2 hbody
          rw [length_append,length_append] at hle
          omega
        | true=>
          have hset' : ℓ'.unordered=true:=by cases hstored <;> exact hset
          have hequal : ws.length=ws'.length:=by
            rcases hcount with hcount | ⟨hordered,-,-⟩
            · exact hcount
            · rw [hset] at hordered
              exact absurd hordered (by decide)
          rw [body_unordered hset] at hn hsize
          rw [body_unordered hset,body_unordered hset'] at hbody
          have hlens:=congrArg List.length hbody
          rw [length_append,length_append] at hlens
          have hshort : ∀x∈sortBytes (ws.map Value.bytes),x.length<2^64:=by
            intro x hx
            have:=length_flatten_map_putBlob _ x hx
            omega
          have hshort' : ∀x∈sortBytes (ws'.map Value.bytes),x.length<2^64:=by
            intro x hx
            have:=length_flatten_map_putBlob _ x hx
            omega
          have hsorted : (sortBytes (ws.map Value.bytes)).length =
              (sortBytes (ws'.map Value.bytes)).length:=by
            rw [(sortBytes_perm _).length_eq,(sortBytes_perm _).length_eq,length_map,
              length_map,hequal]
          have htail:=putBlob_flatten_inj hsorted hshort hshort' hbody
          exact Nat.succ_le_succ (ih hrest hrest' (by omega) (by omega) htail)

def Value.IsCode : Value → Prop
  | .node ℓ _ => ℓ.kind = some .code

theorem code_parts {fields:ℕ} {ℓ : Label} {vs:List Value} (h:ℓ.Sized fields vs.length)
    (hcode:(Value.node ℓ vs).IsCode) : vs.length=fields ∧ ℓ.unordered=false:=by
  have hkind : ℓ.kind=some .code:=hcode
  cases ℓ with
  | code=>exact ⟨h.1,rfl⟩
  | members k=>exact absurd h.1 (by rw [some.inj hkind];decide)
  | seq k=>exact absurd h.1 (by rw [some.inj hkind];decide)
  | constant k=>exact absurd h.2 (by rw [some.inj hkind];decide)
  | integer k=>exact absurd h.2.1 (by rw [some.inj hkind];decide)
  | payload k=>exact absurd h.2.1 (by rw [some.inj hkind];decide)
  | _=>exact absurd hkind (by simp [Label.kind])

/-- Code objects with different numbers of fields are never written alike. -/
theorem code_bytes_ne {fields fields':ℕ} (hlt:fields<fields') {t t':Value}
    (h:t.Sized fields) (h':t'.Sized fields') (hcode:t.IsCode) (hcode':t'.IsCode)
    (hsize:t.bytes.length<2^64) : t.bytes≠t'.bytes:=by
  intro heq
  obtain ⟨hℓ,hws⟩:=h
  obtain ⟨hℓ',hws'⟩:=h'
  next ℓ ws ℓ' ws'=>
  obtain ⟨hlen,hset⟩:=code_parts hℓ hcode
  obtain ⟨hlen',hset'⟩:=code_parts hℓ' hcode'
  rw [bytes_node,length_append] at hsize
  rw [bytes_node,bytes_node] at heq
  obtain ⟨-,hbody,-⟩:=header_inj hℓ hℓ' heq
  rw [body_ordered hset] at hsize
  rw [body_ordered hset,body_ordered hset'] at hbody
  have hle:=forest_length_le (Nat.le_of_lt hlt) _ hws hws' (Nat.lt_succ_self _) (by omega) hbody
  omega

theorem code_of_bytes_eq {fields fields':ℕ} {t t':Value} (h:t.Sized fields)
    (h':t'.Sized fields') (hcode:t.IsCode) (heq:t.bytes=t'.bytes) : t'.IsCode:=by
  obtain ⟨hℓ,-⟩:=h
  obtain ⟨hℓ',-⟩:=h'
  next ℓ ws ℓ' ws'=>
  rw [bytes_node,bytes_node] at heq
  obtain ⟨hstored,-,-⟩:=header_inj hℓ hℓ' heq
  have hkind : ℓ.kind=some .code:=hcode
  show ℓ'.kind = some .code
  cases hstored <;> exact hkind

/-- Code objects are written alike if and only if they are the same, up to what is not written. -/
theorem bytes_eq_iff {fields fields':ℕ} {t t':Value} (h:t.Sized fields) (h':t'.Sized fields')
    (hcode:t.IsCode) (hsize:t.bytes.length<2^64) :
    t.bytes=t'.bytes ↔ Same Label.Stored t t':=by
  refine ⟨fun heq=>?_,Same.bytes_eq⟩
  have hcode':=code_of_bytes_eq h h' hcode heq
  rcases Nat.lt_trichotomy fields fields' with hlt | rfl | hgt
  · exact absurd heq (code_bytes_ne hlt h h' hcode hcode' hsize)
  · have hone : ([t].map Value.bytes).flatten++[]=([t'].map Value.bytes).flatten++[]:=by
      simpa using heq
    have hall:=@forest_inj fields _ [t] [t'] [] [] (by simpa using h) (by simpa using h') rfl
      (Nat.lt_succ_self _) hone
    exact (forall₂_cons.mp hall.1).1
  · exact absurd heq.symm (code_bytes_ne hgt h' h hcode' hcode (by rw [← heq];exact hsize))

end AutoRefirst.PythonMarshal
