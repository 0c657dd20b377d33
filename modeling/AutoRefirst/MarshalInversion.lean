import AutoRefirst.MarshalEncoding

/-!
# Every written object is read back

One lemma for each form of an object, and from these, by induction on the object, that the reader
goes over each object of the format and shows it.
-/

namespace AutoRefirst.PythonMarshal
open List

section
variable {minor : ℤ} {r r₁ r₂ r' : Reader} {ts us : List Written} {ids : List ℕ} {levels : ℕ}

variable {n : ℕ}

theorem Past.grown (h:Past r r' n) (hn:r.p+n ≤ r.d.length) : Grown r r':=
  .of_heap h.d h.minor (by rw [h.p];exact Nat.le_add_right _ _) (by rw [h.p];exact hn) h.reads
    h.heap

variable {k : K} {ref : Bool} {tag : Char} {t : Written}

theorem reads_typed {body:ReadM Node} {n:Node} {inner:List Written} {new:List ℕ}
    (htag:tag.toNat<128) (hnext:Next r [taggedByte ref tag])
    (htyped:∀id r',Ran (withNode k ref body) (r.after 1) id r' →
      Ran (typed .source (obj .source levels) r.p ref tag.toNat) (r.after 1) id r')
    (hk:k≠.nullTag) (hbody:Ran body ((r.after 1).reserved k ref) n r₁)
    (hin:Grown ((r.after 1).reserved k ref) r₁) (hnamed:Named r₁)
    (hp:r₁.p=r.p+(t.encode minor).length)
    (hnew:r₁.refs=((r.after 1).reserved k ref).refs++new)
    (hmarks:Written.ShownAll minor (fresh ((r.after 1).reserved k ref) r₁) r₁.refs inner new)
    (ht:t.marks = marked ref t++inner)
    (hself:∀(L:ℕ→Option Node) (id:ℕ),
      (∀id m,fresh ((r.after 1).reserved k ref) r₁ id=some m → L id=some m) →
        L id = some {n with k:=k} → t.Shown minor L r₁.refs id) :
    ∃id r',Ran (obj .source (levels+1)) r id r' ∧ Reads minor [t] r r' [id]:=by
  have hrun : Ran (obj .source (levels+1)) r r.heap.length
      (r₁.filled r.heap.length {n with k:=k}):=
    run_obj htag hnext (htyped _ _ (ran_withNode.mpr ⟨n,r₁,hbody,rfl,rfl⟩))
  have hgrown:=(program_obj (levels+1)).grown hnext.1 hrun
  exact ⟨_,_,hrun,(reads_withNode (r:=r.after 1) (q:=r) hk hgrown rfl rfl hbody hin hnamed
    hp hnew hmarks ht fun L=>hself L _).2⟩

variable {b : Bytes}

theorem PlainContent.kind_ne (h:PlainContent k tag b) : k≠.nullTag:=by
  cases h with
  | constant h=>
    rintro rfl
    simp [constantTags] at h
  | fixed h=>
    rintro rfl
    simp [fixedTags] at h
  | string h=>
    rintro rfl
    simp [stringTags] at h
  | _=>decide

theorem PlainContent.tag_lt (h:PlainContent k tag b) : tag.toNat<128:=by
  cases h with
  | constant h=>
    simp only [constantTags,mem_cons,not_mem_nil,or_false,Prod.mk.injEq] at h
    rcases h with ⟨-,rfl⟩ | ⟨-,rfl⟩ | ⟨-,rfl⟩ | ⟨-,rfl⟩ | ⟨-,rfl⟩ <;> decide
  | fixed h=>
    simp only [fixedTags,mem_cons,not_mem_nil,or_false,Prod.mk.injEq] at h
    rcases h with ⟨-,rfl,-⟩ | ⟨-,rfl,-⟩ | ⟨-,rfl,-⟩ | ⟨-,rfl,-⟩ <;> decide
  | string h=>
    simp only [stringTags,mem_cons,not_mem_nil,or_false,Prod.mk.injEq] at h
    rcases h with ⟨-,rfl⟩ | ⟨-,rfl⟩ | ⟨-,rfl⟩ | ⟨-,rfl⟩ | ⟨-,rfl⟩ <;> decide
  | short h=>
    simp only [mem_cons,not_mem_nil,or_false] at h
    rcases h with rfl | rfl <;> decide
  | _=>decide

theorem inverts_plain (ref:Bool) (tag:Char) (content:Bytes) :
    Inverts minor (.plain ref tag content):=by
  intro levels r _ hnamed hformed hnext
  obtain ⟨hlevels,k,hcontent⟩:=hformed
  obtain ⟨levels,rfl⟩:=Nat.exists_eq_succ_of_ne_zero (Nat.ne_of_gt hlevels)
  rw [Written.encode] at hnext
  obtain ⟨htagNext,hrest⟩:=next_append hnext
  obtain ⟨body,hbody,htakes⟩:=content_typed hcontent (obj .source levels) r.p ref
  obtain ⟨n,r₁,hrun,-,hpast⟩:=htakes ((r.after 1).reserved k ref) (hrest _ rfl rfl)
  have hnew : r₁.refs=((r.after 1).reserved k ref).refs++[]:=by
    rw [hpast.refs,append_nil]
  have hnone : Written.ShownAll minor (fresh ((r.after 1).reserved k ref) r₁) r₁.refs [] []:=rfl
  refine reads_typed hcontent.tag_lt htagNext (fun id r' h=>hbody▸h) hcontent.kind_ne hrun
    (hpast.grown (hrest ((r.after 1).reserved k ref) rfl rfl).room)
    (hpast.named (named_reserved hnamed hcontent.kind_ne ref)) ?_ hnew hnone ?_ ?_
  · rw [hpast.p,Written.encode,length_append]
    exact Nat.add_assoc _ _ _
  · rw [Written.marks,append_nil]
  · intro L id _ hL
    exact ⟨_,hL,hcontent⟩

theorem inverts_back (index:ℕ) : Inverts minor (.back index):=by
  intro levels r _ hnamed hformed hnext
  obtain ⟨hlevels,hindex,hsmall⟩:=hformed
  obtain ⟨levels,rfl⟩:=Nat.exists_eq_succ_of_ne_zero (Nat.ne_of_gt hlevels)
  rw [Written.encode] at hnext
  obtain ⟨htagNext,hrest⟩:=next_append hnext
  have hfits : Fits32 (index:ℤ):=by
    unfold Fits32
    omega
  obtain ⟨_,r₁,hrun,rfl,hpast⟩:=takes_i32 hfits (r.after 1) (hrest _ rfl rfl)
  obtain ⟨id,hid⟩ : ∃id,r.refs[index]? = some id:=⟨_,getElem?_eq_getElem hindex⟩
  have hrefs : r₁.refs=r.refs:=hpast.refs
  have hat : Ran (refAt index r.p) r₁ id r₁:=
    ran_refAt.mpr ⟨Int.natCast_nonneg _,by rw [hrefs];exact hid,rfl⟩
  have htyped : Ran (typed .source (obj .source levels) r.p false 'r'.toNat) (r.after 1) id r₁:=
    ran_bind.mpr ⟨_,r₁,hrun,hat⟩
  have hall:=run_obj (by decide) htagNext htyped
  refine ⟨id,r₁,hall,(program_obj _).grown hnext.1 hall,hpast.named hnamed,?_,
    ⟨[],by rw [hrefs,append_nil],rfl⟩,⟨id,[],rfl,?_,rfl⟩⟩
  · rw [hpast.p,Written.encodeAll,Written.encodeAll,Written.encode,append_nil,
      length_append]
    exact Nat.add_assoc _ _ _
  · show r₁.refs[index]? = some id
    rw [hrefs,hid]

/-- The first of some objects, and where the others stand. -/
theorem inverts_first (h:Inverts minor t) (hminor:r.minor=minor) (hnamed:Named r)
    (hformed:Written.FormedAll minor levels r.refs.length (t::ts))
    (hnext:Next r (t.encode minor++b)) :
    ∃id r₁,Ran (obj .source levels) r id r₁ ∧ Reads minor [t] r r₁ [id] ∧
      Written.FormedAll minor levels r₁.refs.length ts ∧ r₁.minor=minor ∧ Next r₁ b:=by
  obtain ⟨ht,hts⟩:=hformed
  obtain ⟨hfirst,hrest⟩:=next_append hnext
  obtain ⟨id,r₁,hrun,hreads⟩:=h levels r hminor hnamed ht hfirst
  obtain ⟨new,hnew,hmarks⟩:=hreads.marks
  have hlen : r₁.refs.length=r.refs.length+t.marks.length:=by
    rw [hnew,length_append,shownAll_length hmarks,Written.marksAll,Written.marksAll, append_nil]
  have hp : r₁.p=r.p+(t.encode minor).length:=by
    rw [hreads.p,Written.encodeAll,Written.encodeAll,append_nil]
  exact ⟨id,r₁,hrun,hreads,by rw [hlen];exact hts,hreads.grown.minor.trans hminor,
    hrest r₁ hreads.grown.d hp⟩

theorem inverts_items (h:∀t∈ts,Inverts minor t) (hminor:r.minor=minor)
    (hnamed:Named r) (hformed:Written.FormedAll minor levels r.refs.length ts)
    (hnext:Next r (Written.encodeAll minor ts)) :
    ∃ids r',Ran (items (obj .source levels) ts.length) r ids r' ∧ Reads minor ts r r' ids:=by
  induction ts generalizing r with
  | nil=>exact ⟨[],r,rfl,reads_nil hnext.1 hnamed⟩
  | cons t ts ih=>
    obtain ⟨id,r₁,hrun,hreads,hts,hminor₁,hrest⟩:=
      inverts_first (h t mem_cons_self) hminor hnamed hformed hnext
    obtain ⟨ids,r',hruns,hall⟩:=ih (fun u hu=>h u (mem_cons_of_mem _ hu)) hminor₁
      hreads.named hts hrest
    exact ⟨id::ids,r',ran_bind.mpr ⟨id,r₁,hrun,ran_bind.mpr ⟨ids,r',hruns,rfl⟩⟩, hreads.append hall⟩

/-- What the objects of a run make, seen from a reader in front of some bytes more. -/
theorem Reads.past (h:Reads minor ts r₁ r' ids) (hpast:Past r r₁ n) : ∃new,r'.refs=r.refs++new ∧
      Written.ShownAll minor (fresh r r') r'.refs (Written.marksAll ts) new ∧
      Written.ShownAll minor (fresh r r') r'.refs ts ids:=by
  have hfresh : fresh r r'=fresh r₁ r':=by
    funext id
    rw [fresh,fresh,hpast.heap]
  obtain ⟨new,hnew,hmarks⟩:=h.marks
  rw [hfresh]
  exact ⟨new,by rw [hnew,hpast.refs],hmarks,h.shown⟩

theorem refs_reserved_length (r:Reader) (k:K) (ref:Bool) :
    (r.reserved k ref).refs.length = r.refs.length+ref.toNat:=by
  change (if ref then r.refs++[r.heap.length] else r.refs).length = _
  cases ref
  · rfl
  · rw [if_pos rfl,length_append]
    rfl

/-- A sequence whose count has been passed. -/
theorem reads_seq {body:ReadM Node} {head:Bytes} {items:List Written}
    (h:∀t∈items,Inverts minor t) (htag:tag.toNat<128) (hkind:seqKind tag=k)
    (hk:k≠.nullTag) (hhead:countBytes tag items.length=head)
    (htyped:∀r₀ : Reader,r₀.minor=minor → ∀id r',Ran (withNode k ref body) r₀ id r' →
      Ran (typed .source (obj .source levels) r.p ref tag.toNat) r₀ id r')
    (hbody:∀r₀ : Reader,Next r₀ head → ∃r₂,Past r₀ r₂ head.length ∧
      ∀ids r',Ran (PythonMarshal.items (obj .source levels) items.length) r₂ ids r' →
        Ran body r₀ {k,seq:=ids} r')
    (hminor:r.minor=minor) (hnamed:Named r)
    (hformed:Written.FormedAll minor levels (r.refs.length+ref.toNat) items)
    (hnext:Next r ((Written.seq ref tag items).encode minor)) :
    ∃id r',Ran (obj .source (levels+1)) r id r' ∧ Reads minor [.seq ref tag items] r r' [id]:=by
  rw [Written.encode,hhead] at hnext
  obtain ⟨htagNext,hrest⟩:=next_append hnext
  have hcontent:=hrest ((r.after 1).reserved k ref) rfl rfl
  obtain ⟨hcount,hitems⟩:=next_append hcontent
  obtain ⟨r₂,hpast,hrun⟩:=hbody _ hcount
  obtain ⟨ids,r₁,hruns,hreads⟩:=inverts_items h (hpast.minor.trans hminor)
    (hpast.named (named_reserved hnamed hk ref))
    (by rw [hpast.refs,refs_reserved_length];exact hformed) (hitems r₂ hpast.d hpast.p)
  obtain ⟨new,hnew,hmarks,hshown⟩:=hreads.past hpast
  refine reads_typed htag htagNext (htyped _ hminor) hk (hrun ids r₁ hruns)
    ((hpast.grown hcount.room).trans hreads.grown) hreads.named ?_ hnew hmarks
    (by rw [Written.marks]) ?_
  · rw [hreads.p,hpast.p,Written.encode,hhead,length_append,length_append]
    change r.p + 1 + _ + _ = r.p+(1+_)
    omega
  · intro L id hmore hL
    exact ⟨_,hL,hkind.symm,.mono hmore (prefix_refl _) _ hshown⟩

theorem takes_count (small:Bool) (hslice:tag ≠ ':') (hsmall:small=true ↔ tag = ')')
    (hn:n≤10000000) (hbyte:small=true → n<256) :
    Takes (itemCount .source small) (countBytes tag n) (· = (n:ℤ)):=by
  unfold itemCount countBytes
  rw [if_neg hslice]
  cases small
  · rw [if_neg Bool.false_ne_true,if_neg fun h=>Bool.false_ne_true (hsmall.mpr h)]
    exact takes_i32 (fits32_nat hn)
  · rw [if_pos rfl,if_pos (hsmall.mp rfl)]
    refine (takes_u8 (hbyte rfl)).last ?_
    rintro _ rfl
    exact takes_pure rfl

theorem seq_body (small:Bool) (hslice:tag ≠ ':') (hsmall:small=true ↔ tag = ')')
    (hn:n≤10000000) (hbyte:small=true → n<256) {body:ReadM Node}
    (hbody:body=(itemCount .source small >>= fun len=>
      countOk len 0 >>= fun _=>items (obj .source levels) len.toNat >>= fun xs=>
        pure ({k,seq:=xs} : Node)))
    (r₀:Reader) (hnext:Next r₀ (countBytes tag n)) :
    ∃r₂,Past r₀ r₂ (countBytes tag n).length ∧
      ∀ids r',Ran (items (obj .source levels) n) r₂ ids r' →
        Ran body r₀ {k,seq:=ids} r':=by
  obtain ⟨_,r₂,hrun,rfl,hpast⟩:=takes_count small hslice hsmall hn hbyte r₀ hnext
  have hroom:=hnext.room
  have hcount : Ran (countOk (n:ℤ) 0) r₂ () r₂:=by
    refine run_countOk (by omega) (by omega) ?_
    rw [hpast.p,hpast.d]
    omega
  rw [hbody]
  exact ⟨r₂,hpast,fun ids r' hruns=>ran_bind.mpr ⟨_,r₂,hrun,ran_bind.mpr
    ⟨(),r₂,hcount,ran_bind.mpr ⟨ids,r',hruns,rfl⟩⟩⟩⟩

theorem reads_counted {items:List Written} (h:∀t∈items,Inverts minor t) (small:Bool)
    (htag:tag.toNat<128) (hkind:seqKind tag=k) (hk:k≠.nullTag) (hslice:tag ≠ ':')
    (hsmall:small=true ↔ tag = ')')
    (htyped:typed .source (obj .source levels) r.p ref tag.toNat =
      seqNode .source (obj .source levels) k small ref)
    (hcount:items.length≤10000000) (hbyte:small=true → items.length<256)
    (hminor:r.minor=minor) (hnamed:Named r)
    (hformed:Written.FormedAll minor levels (r.refs.length+ref.toNat) items)
    (hnext:Next r ((Written.seq ref tag items).encode minor)) :
    ∃id r',Ran (obj .source (levels+1)) r id r' ∧ Reads minor [.seq ref tag items] r r' [id]:=
  reads_seq h htag hkind hk rfl (fun _ _ _ _ hrun=>htyped▸hrun)
    (seq_body small hslice hsmall hcount hbyte rfl) hminor hnamed hformed hnext

theorem inverts_seq {items:List Written} (h:∀t∈items,Inverts minor t) (ref:Bool)
    (tag:Char) : Inverts minor (.seq ref tag items):=by
  intro levels r hminor hnamed hformed hnext
  obtain ⟨hlevels,⟨k,hk⟩,hcount,hsmall,hslice,hitems⟩:=hformed
  obtain ⟨levels,rfl⟩:=Nat.exists_eq_succ_of_ne_zero (Nat.ne_of_gt hlevels)
  simp only [seqTags,mem_cons,not_mem_nil,or_false,Prod.mk.injEq] at hk
  rcases hk with ⟨rfl,rfl⟩ | ⟨rfl,rfl⟩ | ⟨rfl,rfl⟩ | ⟨rfl,rfl⟩ | ⟨rfl,rfl⟩ | ⟨rfl,rfl⟩
  · exact reads_counted h false (by decide) rfl (by decide) (by decide) (by decide) rfl hcount
      (fun h=>Bool.noConfusion h) hminor hnamed hitems hnext
  · exact reads_counted h true (by decide) rfl (by decide) (by decide) (by decide) rfl hcount
      (fun _=>hsmall rfl) hminor hnamed hitems hnext
  · exact reads_counted h false (by decide) rfl (by decide) (by decide) (by decide) rfl hcount
      (fun h=>Bool.noConfusion h) hminor hnamed hitems hnext
  · exact reads_counted h false (by decide) rfl (by decide) (by decide) (by decide) rfl hcount
      (fun h=>Bool.noConfusion h) hminor hnamed hitems hnext
  · exact reads_counted h false (by decide) rfl (by decide) (by decide) (by decide) rfl hcount
      (fun h=>Bool.noConfusion h) hminor hnamed hitems hnext
  · obtain ⟨hnew,hthree⟩:=hslice rfl
    have htyped : ∀r₀ : Reader,r₀.minor=minor → ∀id r',
        Ran (withNode .slice ref (PythonMarshal.items (obj .source levels) 3 >>= fun xs=>
          pure ({k:=.slice,seq:=xs} : Node))) r₀ id r' →
            Ran (typed .source (obj .source levels) r.p ref ':'.toNat) r₀ id r':=by
      intro r₀ hr₀ id r' hrun
      refine ran_bind.mpr ⟨false,r₀,ran_minorIs.mpr ⟨?_,rfl⟩,hrun⟩
      exact (decide_eq_false (by omega)).symm
    refine reads_seq h (by decide) rfl (by decide) rfl htyped ?_ hminor hnamed hitems hnext
    · intro r₀ hnext
      refine ⟨r₀,⟨rfl,rfl,rfl,rfl,rfl,prefix_refl _⟩,fun ids r' hruns=>?_⟩
      rw [hthree] at hruns
      exact ran_bind.mpr ⟨ids,r',hruns,rfl⟩

theorem seqKind_ne (tag:Char) : seqKind tag≠.nullTag:=by
  unfold seqKind
  cases hfind : seqTags.find? fun x=>x.2=tag with
  | none=>decide
  | some x=>
    have hmem:=mem_of_find?_eq_some hfind
    simp only [seqTags,mem_cons,not_mem_nil,or_false] at hmem
    rcases hmem with rfl | rfl | rfl | rfl | rfl | rfl <;> decide

/-- What shows an object is there, and it does not end a dictionary. -/
theorem Written.Shown.kind {id:ℕ} (hnamed:Named r')
    (h:t.Shown minor (fresh r r') r'.refs id) :
    ∃n,r'.heap[id]? = some n ∧ n.k≠.nullTag:=by
  cases t with
  | plain=>
    obtain ⟨n,hn,hcontent⟩:=h
    exact ⟨n,(fresh_of_some hn).2,hcontent.kind_ne⟩
  | back index=>
    have hid : r'.refs[index]? = some id:=h
    exact hnamed id (mem_of_getElem? hid)
  | seq _ tag=>
    obtain ⟨n,hn,hk,-⟩:=h
    exact ⟨n,(fresh_of_some hn).2,hk▸seqKind_ne tag⟩
  | dict=>
    obtain ⟨n,hn,hk⟩:=h
    exact ⟨n,(fresh_of_some hn).2,by rw [hk];decide⟩
  | code=>
    obtain ⟨n,-,-,hn,hk,-⟩:=h
    exact ⟨n,(fresh_of_some hn).2,by rw [hk];decide⟩

theorem Reads.kind {id:ℕ} (h:Reads minor [t] r r' [id]) :
    ∃n,r'.heap[id]? = some n ∧ n.k≠.nullTag:=by
  obtain ⟨_,_,hids,hshown,-⟩:=h.shown
  obtain ⟨rfl,-⟩:=List.cons.inj hids
  exact hshown.kind h.named

theorem Named.grown (h:Named r) (hgrown:Grown r r') (hrefs:r'.refs=r.refs) : Named r':=by
  intro id hid
  rw [hrefs] at hid
  obtain ⟨n,hn,hk⟩:=h id hid
  exact ⟨n,lookup_of_grown hgrown.heap hn,hk⟩

theorem run_end (hnext:Next r [byte '0']) (hnamed:Named r) :
    ∃id r',Ran (obj .source (levels+1)) r id r' ∧ r'.heap[id]?.map Node.k=some .nullTag ∧
      Grown r r' ∧ Named r' ∧ r'.refs=r.refs ∧ r'.p=r.p+1:=by
  have htag : Next r [taggedByte false '0']:=hnext
  have hrun : Ran (obj .source (levels+1)) r r.heap.length
      (((r.after 1).reserved .nullTag false).filled r.heap.length {k:=.nullTag}):=
    run_obj (by decide) htag (ran_withNode.mpr ⟨({k:=.nullTag} : Node),_,rfl,rfl,rfl⟩)
  have hgrown:=(program_obj (levels+1)).grown hnext.1 hrun
  refine ⟨_,_,hrun,?_,hgrown,hnamed.grown hgrown rfl,rfl,rfl⟩
  change ((r.heap++[({k:=.nullTag} : Node)]).set r.heap.length {k:=.nullTag})[
    r.heap.length]?.map Node.k = _
  rw [getElem?_set_self (by rw [length_append];exact Nat.lt_succ_self _)]
  rfl

/-- The pairs of a dictionary up to its end. -/
theorem inverts_entries {entries:List Written} {rounds:ℕ} (h:∀t∈entries,Inverts minor t)
    (heven:entries.length % 2=0) (hrounds:entries.length<2*rounds)
    (hminor:r.minor=minor) (hnamed:Named r)
    (hformed:Written.FormedAll minor (levels+1) r.refs.length entries)
    (hnext:Next r (Written.encodeAll minor entries++[byte '0'])) :
    ∃kvs ids r₁ r',Ran (dictItems (obj .source (levels+1)) rounds) r kvs r' ∧
      Reads minor entries r r₁ ids ∧ Grown r₁ r' ∧ Named r' ∧ r'.refs=r₁.refs ∧
        r'.p = r₁.p+1:=by
  induction rounds generalizing r entries with
  | zero=>omega
  | succ rounds ih=>
    obtain _ | ⟨key,_ | ⟨value,rest⟩⟩:=entries
    · obtain ⟨id,r',hrun,hkind,hgrown,hnamed',hrefs,hp⟩:=run_end hnext hnamed
      refine ⟨[],[],r,r',ran_bind.mpr ⟨id,r',hrun,ran_bind.mpr ⟨.nullTag,r',
        ran_kindOf.mpr ⟨hkind,rfl⟩,?_⟩⟩,reads_nil hnext.1 hnamed,hgrown,hnamed',hrefs,hp⟩
      rw [if_pos rfl]
      rfl
    · exact absurd heven Nat.one_ne_zero
    · rw [Written.encodeAll,Written.encodeAll,append_assoc,append_assoc] at hnext
      obtain ⟨id,r₁,hkey,hreads,hformed₁,hminor₁,hnext₁⟩:=
        inverts_first (h key (by simp)) hminor hnamed hformed hnext
      obtain ⟨id₂,r₂,hvalue,hreads₂,hformed₂,hminor₂,hnext₂⟩:=
        inverts_first (h value (by simp)) hminor₁ hreads.named hformed₁ hnext₁
      rw [length_cons,length_cons] at heven hrounds
      obtain ⟨kvs,ids,r₃,r',hrest,hreads₃,hgrown,hnamed',hrefs,hp⟩:=
        ih (fun t ht=>h t (mem_cons_of_mem _ (mem_cons_of_mem _ ht))) (by omega)
          (by omega) hminor₂ hreads₂.named hformed₂ hnext₂
      obtain ⟨n,hn,hk⟩:=hreads.kind
      refine ⟨(id,id₂)::kvs,id::id₂::ids,r₃,r',ran_bind.mpr ⟨id,r₁,hkey,
        ran_bind.mpr ⟨n.k,r₁,ran_kindOf.mpr ⟨by rw [hn];rfl,rfl⟩,?_⟩⟩,
        hreads.append (hreads₂.append hreads₃),hgrown,hnamed',hrefs,hp⟩
      rw [if_neg hk]
      exact ran_bind.mpr ⟨id₂,r₂,hvalue,ran_bind.mpr ⟨kvs,r',hrest,rfl⟩⟩

theorem inverts_dict {entries:List Written} (h:∀t∈entries,Inverts minor t) (ref:Bool) :
    Inverts minor (.dict ref entries):=by
  intro levels r hminor hnamed hformed hnext
  obtain ⟨hlevels,hcount,heven,hentries⟩:=hformed
  obtain ⟨levels,rfl⟩ : ∃l,levels=l+1+1:=⟨levels-2,by omega⟩
  rw [Written.encode] at hnext
  obtain ⟨htagNext,hrest⟩:=next_append hnext
  have hcontent:=hrest ((r.after 1).reserved .dict ref) rfl rfl
  obtain ⟨kvs,ids,r₂,r₁,hrun,hreads,hgrown,hnamed₁,hrefs,hp⟩:=
    inverts_entries (r:=(r.after 1).reserved .dict ref) h heven
      (show entries.length<2*10000000 by omega) hminor
      (named_reserved hnamed (by decide) ref) (by rw [refs_reserved_length];exact hentries) hcontent
  obtain ⟨new,hnew,hmarks⟩:=hreads.marks
  have hbody : Ran (dictItems (obj .source (levels+1)) 10000000 >>= fun kvs=>
      pure ({k:=.dict,dict:=kvs} : Node)) ((r.after 1).reserved .dict ref)
        {k:=.dict,dict:=kvs} r₁:=ran_bind.mpr ⟨kvs,r₁,hrun,rfl⟩
  have hmarked : Written.ShownAll minor (fresh ((r.after 1).reserved .dict ref) r₁) r₁.refs
      (Written.marksAll entries) new:=by
    rw [hrefs]
    exact .mono (fresh_first hgrown) (prefix_refl _) _ hmarks
  refine reads_typed (by decide) htagNext (fun _ _ h=>h) (by decide) hbody
    (hreads.grown.trans hgrown) hnamed₁ ?_ (by rw [hrefs];exact hnew) hmarked
    (by rw [Written.marks]) ?_
  · rw [hp,hreads.p,Written.encode,length_append,length_append]
    change r.p + 1 + _ + 1 = r.p+(1+(_+1))
    omega
  · intro L id _ hL
    exact ⟨_,hL,rfl⟩

theorem run_number {v:ℤ} (hv:Fits32 v) (hnext:Next r (putU32 v++b)) :
    ∃r₁,Past r r₁ 4 ∧ Next r₁ b ∧ Ran ri r v r₁:=by
  obtain ⟨hfirst,hrest⟩:=next_append hnext
  obtain ⟨_,r₁,hrun,rfl,hpast⟩:=takes_ri hv r hfirst
  exact ⟨r₁,hpast,hrest r₁ hpast.d hpast.p,hrun⟩

variable {parts tail : List Written}

theorem inverts_parts {line:ℤ} (hparts:∀t∈parts,Inverts minor t)
    (htail:∀t∈tail,Inverts minor t) (hline:Fits32 line) (hminor:r.minor=minor)
    (hnamed:Named r) (hformed:Written.FormedAll minor levels r.refs.length parts)
    (hformed':Written.FormedAll minor levels (r.refs.length+(Written.marksAll parts).length) tail)
    (hnext:Next r (Written.encodeAll minor parts ++ (putU32 line++Written.encodeAll minor tail))) :
    ∃ids ids' new r₁ r₂ r',Ran (items (obj .source levels) parts.length) r ids r₁ ∧
      Ran ri r₁ line r₂ ∧ Ran (items (obj .source levels) tail.length) r₂ ids' r' ∧
        Grown r r' ∧ Named r' ∧ r'.p=r.p+(Written.encodeAll minor parts ++
          (putU32 line++Written.encodeAll minor tail)).length ∧ r'.refs=r.refs++new ∧
            Written.ShownAll minor (fresh r r') r'.refs
              (Written.marksAll parts++Written.marksAll tail) new ∧
                Written.ShownAll minor (fresh r r') r'.refs parts ids:=by
  obtain ⟨hfirst,hrest⟩:=next_append hnext
  obtain ⟨ids,r₁,hrun,hreads⟩:=inverts_items hparts hminor hnamed hformed hfirst
  obtain ⟨r₂,hpast,hnext₂,hnumber⟩:=run_number hline (hrest r₁ hreads.grown.d hreads.p)
  obtain ⟨new,hnew,hmarks⟩:=hreads.marks
  have hlen : r₂.refs.length=r.refs.length+(Written.marksAll parts).length:=by
    rw [hpast.refs,hnew,length_append,shownAll_length hmarks]
  obtain ⟨ids',r',hrun',hreads'⟩:=inverts_items htail
    (hpast.minor.trans (hreads.grown.minor.trans hminor)) (hpast.named hreads.named)
    (by rw [hlen];exact hformed') hnext₂
  obtain ⟨new',hnew',hmarks',-⟩:=hreads'.past hpast
  have hroom : r₁.p+4 ≤ r₁.d.length:=by
    rw [← hpast.p,← hpast.d]
    exact hnext₂.1
  have hgrown:=(hpast.grown hroom).trans hreads'.grown
  have hrefs : r₁.refs <+: r'.refs:=⟨new',hnew'.symm⟩
  refine ⟨ids,ids',new++new',r₁,r₂,r',hrun,hnumber,hrun',hreads.grown.trans hgrown,
    hreads'.named,?_,?_,?_,.mono (fresh_first hgrown) hrefs _ hreads.shown⟩
  · rw [hreads'.p,hpast.p,hreads.p,length_append,length_append,length_putU32]
    omega
  · rw [hnew',hnew,append_assoc]
  · exact shownAll_append (.mono (fresh_first hgrown) hrefs _ hmarks)
      (.mono (fresh_rest hreads.grown) (prefix_refl _) _ hmarks')

variable {o : ReadM ℕ}

theorem run_items_succ (h:Ran (items o (n+1)) r ids r') :
    ∃id rest r₁,ids=id::rest ∧ Ran o r id r₁ ∧ Ran (items o n) r₁ rest r':=by
  obtain ⟨id,r₁,hfirst,h⟩:=ran_bind.mp h
  obtain ⟨rest,r₂,hrest,h⟩:=ran_bind.mp h
  obtain ⟨rfl,rfl⟩:=ran_pure.mp h
  exact ⟨id,rest,r₁,rfl,hfirst,hrest⟩

theorem run_items_zero (h:Ran (items o 0) r ids r') : ids=[] ∧ r'=r:=by
  obtain ⟨rfl,rfl⟩:=ran_pure.mp h
  exact ⟨rfl,rfl⟩

theorem run_items_eight (h:Ran (items o 8) r ids r') :
    ∃i₁ i₂ i₃ i₄ i₅ i₆ i₇ i₈,ids=[i₁,i₂,i₃,i₄,i₅,i₆,i₇,i₈] ∧
      ∀ {β:Type} (k:ℕ→ℕ→ℕ→ℕ→ℕ→ℕ→ℕ→ℕ→ReadM β) (x:β) (r₁:Reader),
        Ran (k i₁ i₂ i₃ i₄ i₅ i₆ i₇ i₈) r' x r₁ →
          Ran (o >>= fun i₁=>o >>= fun i₂=>o >>= fun i₃=>o >>= fun i₄=>o >>= fun i₅=>
            o >>= fun i₆=>o >>= fun i₇=>o >>= fun i₈=>k i₁ i₂ i₃ i₄ i₅ i₆ i₇ i₈) r x r₁:=by
  obtain ⟨i₁,_,_,rfl,h₁,h⟩:=run_items_succ h
  obtain ⟨i₂,_,_,rfl,h₂,h⟩:=run_items_succ h
  obtain ⟨i₃,_,_,rfl,h₃,h⟩:=run_items_succ h
  obtain ⟨i₄,_,_,rfl,h₄,h⟩:=run_items_succ h
  obtain ⟨i₅,_,_,rfl,h₅,h⟩:=run_items_succ h
  obtain ⟨i₆,_,_,rfl,h₆,h⟩:=run_items_succ h
  obtain ⟨i₇,_,_,rfl,h₇,h⟩:=run_items_succ h
  obtain ⟨i₈,_,_,rfl,h₈,h⟩:=run_items_succ h
  obtain ⟨rfl,rfl⟩:=run_items_zero h
  refine ⟨i₁,i₂,i₃,i₄,i₅,i₆,i₇,i₈,rfl,fun k x r₁ hk=>?_⟩
  exact ran_bind.mpr ⟨_,_,h₁,ran_bind.mpr ⟨_,_,h₂,ran_bind.mpr ⟨_,_,h₃,
    ran_bind.mpr ⟨_,_,h₄,ran_bind.mpr ⟨_,_,h₅,ran_bind.mpr ⟨_,_,h₆,
      ran_bind.mpr ⟨_,_,h₇,ran_bind.mpr ⟨_,_,h₈,hk⟩⟩⟩⟩⟩⟩⟩⟩

/-- What the fields of a code object give. -/
structure CodeRun (minor : ℤ) (numbers : CodeNumbers) (parts tail : List Written) (r r' : Reader)
    (c : CodeData) : Prop where
  grown : Grown r r'
  named : Named r'
  numbers : numbers.In minor c
  marks : ∃ new, r'.refs=r.refs++new ∧ Written.ShownAll minor (fresh r r') r'.refs
    (Written.marksAll parts ++ Written.marksAll tail) new
  parts : ∃ ids, Written.ShownAll minor (fresh r r') r'.refs parts ids ∧
    [c.code,c.consts,c.names] = (ids.take 3).map some

variable {numbers : CodeNumbers}

/-- What was read in front of the parts made no object. -/
theorem CodeRun.past {c:CodeData} (hpast:Past r r₁ n) (hn:r.p+n ≤ r.d.length)
    (h:CodeRun minor numbers parts tail r₁ r' c) : CodeRun minor numbers parts tail r r' c:=by
  have hfresh : fresh r r'=fresh r₁ r':=by
    funext id
    rw [fresh,fresh,hpast.heap]
  refine ⟨(hpast.grown hn).trans h.grown,h.named,h.numbers,?_,?_⟩
  · rw [hfresh,← hpast.refs]
    exact h.marks
  · rw [hfresh]
    exact h.parts

section

variable (hparts : ∀ t∈parts, Inverts minor t) (htail : ∀ t∈tail, Inverts minor t)
    (hfits : numbers.Fits) (hminor : r.minor=minor) (hnamed : Named r) (height : parts.length=8)
    (hcount : tail.length = tailCount minor)
    (hformed : Written.FormedAll minor levels r.refs.length parts)
    (hformed' : Written.FormedAll minor levels
      (r.refs.length+(Written.marksAll parts).length) tail)

include hparts htail hfits hminor hnamed height hcount hformed hformed'

theorem run_fields (hnext:Next r ((if minor≤10 then putU32 numbers.nlocals else []) ++
      (putU32 numbers.stacksize++(putU32 numbers.flags++(Written.encodeAll minor parts ++
        (putU32 numbers.firstlineno++Written.encodeAll minor tail)))))) :
    ∃c r',Ran (codeFields (obj .source levels) (decide (minor≤10))
        {argcount:=numbers.argcount,posonly:=numbers.posonly,kwonly:=numbers.kwonly})
          r c r' ∧ CodeRun minor numbers parts tail r r' c ∧
            r'.p = r.p+((if minor≤10 then putU32 numbers.nlocals else []) ++
              (putU32 numbers.stacksize++(putU32 numbers.flags ++
                (Written.encodeAll minor parts++(putU32 numbers.firstlineno ++
                  Written.encodeAll minor tail))))).length:=by
  unfold codeFields
  unfold tailCount at hcount
  by_cases hold : minor≤10
  · rw [if_pos hold] at hnext hcount ⊢
    rw [if_pos (decide_eq_true hold)]
    obtain ⟨r₁,hpast₁,hnext₁,hrun₁⟩:=run_number hfits.nlocals hnext
    obtain ⟨r₂,hpast₂,hnext₂,hrun₂⟩:=run_number hfits.stacksize hnext₁
    obtain ⟨r₃,hpast₃,hnext₃,hrun₃⟩:=run_number hfits.flags hnext₂
    have hpast:=(hpast₁.trans hpast₂).trans hpast₃
    obtain ⟨ids,ids',new,r₄,r₅,r',hitems,hline,hlast,hgrown,hnamed',hp,hnew,hmarks,
      hshown⟩:=inverts_parts hparts htail hfits.firstlineno (hpast.minor.trans hminor)
        (hpast.named hnamed) (by rw [hpast.refs];exact hformed)
        (by rw [hpast.refs];exact hformed') hnext₃
    rw [height] at hitems
    rw [hcount] at hlast
    obtain ⟨i₁,i₂,i₃,i₄,i₅,i₆,i₇,i₈,rfl,hall⟩:=run_items_eight hitems
    obtain ⟨j,_,r₆,rfl,hj,hnone⟩:=run_items_succ hlast
    obtain ⟨rfl,rfl⟩:=run_items_zero hnone
    have hroom : r.p+(4+4+4) ≤ r.d.length:=by
      rw [← hpast.p,← hpast.d]
      exact hnext₃.1
    refine ⟨_,_,ran_bind.mpr ⟨_,_,hrun₁,ran_bind.mpr ⟨_,_,hrun₂,ran_bind.mpr
      ⟨_,_,hrun₃,hall _ _ _ (ran_bind.mpr ⟨_,_,hline,ran_bind.mpr ⟨_,_,hj,rfl⟩⟩)⟩⟩⟩,
      CodeRun.past hpast hroom ⟨hgrown,hnamed',?_,⟨new,hnew,hmarks⟩,⟨_,hshown,rfl⟩⟩,?_⟩
    · exact ⟨rfl,rfl,rfl,fun _=>rfl,rfl,rfl,rfl⟩
    · rw [hp,hpast.p]
      simp only [length_append,length_putU32]
      omega
  · rw [if_neg hold,nil_append] at hnext
    rw [if_neg hold] at hcount ⊢
    rw [if_neg (by rw [decide_eq_true_eq];exact hold),nil_append]
    obtain ⟨r₂,hpast₂,hnext₂,hrun₂⟩:=run_number hfits.stacksize hnext
    obtain ⟨r₃,hpast₃,hnext₃,hrun₃⟩:=run_number hfits.flags hnext₂
    have hpast:=hpast₂.trans hpast₃
    obtain ⟨ids,ids',new,r₄,r₅,r',hitems,hline,hlast,hgrown,hnamed',hp,hnew,hmarks,
      hshown⟩:=inverts_parts hparts htail hfits.firstlineno (hpast.minor.trans hminor)
        (hpast.named hnamed) (by rw [hpast.refs];exact hformed)
        (by rw [hpast.refs];exact hformed') hnext₃
    rw [height] at hitems
    rw [hcount] at hlast
    obtain ⟨i₁,i₂,i₃,i₄,i₅,i₆,i₇,i₈,rfl,hall⟩:=run_items_eight hitems
    obtain ⟨j,_,r₆,rfl,hj,hlast⟩:=run_items_succ hlast
    obtain ⟨j',_,r₇,rfl,hj',hnone⟩:=run_items_succ hlast
    obtain ⟨rfl,rfl⟩:=run_items_zero hnone
    have hroom : r.p+(4+4) ≤ r.d.length:=by
      rw [← hpast.p,← hpast.d]
      exact hnext₃.1
    refine ⟨_,_,ran_bind.mpr ⟨_,_,hrun₂,ran_bind.mpr ⟨_,_,hrun₃,hall _ _ _
      (ran_bind.mpr ⟨_,_,hline,ran_bind.mpr ⟨_,_,hj,ran_bind.mpr ⟨_,_,hj',rfl⟩⟩⟩)⟩⟩,
      CodeRun.past hpast hroom ⟨hgrown,hnamed',?_,⟨new,hnew,hmarks⟩,⟨_,hshown,rfl⟩⟩,?_⟩
    · exact ⟨rfl,rfl,rfl,fun h=>absurd h hold,rfl,rfl,rfl⟩
    · rw [hp,hpast.p]
      simp only [length_append,length_putU32]
      omega

theorem run_codeHead (hnext:Next r (numbers.encode minor++(Written.encodeAll minor parts ++
      (putU32 numbers.firstlineno++Written.encodeAll minor tail)))) :
    ∃c r',Ran (codeHead (obj .source levels)) r c r' ∧
      CodeRun minor numbers parts tail r r' c ∧ r'.p=r.p+(numbers.encode minor ++
        (Written.encodeAll minor parts++(putU32 numbers.firstlineno ++
          Written.encodeAll minor tail))).length:=by
  have hpast₀ : Past r (countCode r).2 0:=⟨rfl,rfl,rfl,rfl,rfl,prefix_refl _⟩
  have hnext₀ : Next (countCode r).2 (numbers.encode minor++(Written.encodeAll minor parts ++
      (putU32 numbers.firstlineno++Written.encodeAll minor tail))):=hnext
  simp only [CodeNumbers.encode,append_assoc] at hnext₀ ⊢
  obtain ⟨r₁,hpast₁,hnext₁,hrun₁⟩:=run_number hfits.argcount hnext₀
  obtain ⟨r₂,hpast₂,hnext₂,hrun₂⟩:=run_number hfits.posonly hnext₁
  obtain ⟨r₃,hpast₃,hnext₃,hrun₃⟩:=run_number hfits.kwonly hnext₂
  have hpast:=((hpast₀.trans hpast₁).trans hpast₂).trans hpast₃
  have hroom : r.p+(0+4+4+4) ≤ r.d.length:=by
    rw [← hpast.p,← hpast.d]
    exact hnext₃.1
  obtain ⟨c,r',hrun,hcode,hp⟩:=run_fields hparts htail hfits (hpast.minor.trans hminor)
    (hpast.named hnamed) height hcount (by rw [hpast.refs];exact hformed)
    (by rw [hpast.refs];exact hformed') hnext₃
  refine ⟨c,r',ran_bind.mpr ⟨(),_,rfl,ran_bind.mpr ⟨_,_,hrun₁,ran_bind.mpr
    ⟨_,_,hrun₂,ran_bind.mpr ⟨_,_,hrun₃,ran_bind.mpr ⟨_,r₃,ran_minorIs.mpr ⟨rfl,rfl⟩,?_⟩⟩⟩⟩⟩,
    CodeRun.past hpast hroom hcode,?_⟩
  · rw [hpast.minor,hminor]
    exact hrun
  · rw [hp,hpast.p]
    simp only [length_append,length_putU32]
    omega

end

theorem inverts_code (hparts:∀t∈parts,Inverts minor t) (htail:∀t∈tail,Inverts minor t)
    (ref:Bool) (numbers:CodeNumbers) :
    Inverts minor (.code ref numbers parts tail):=by
  intro levels r hminor hnamed hformed hnext
  obtain ⟨hlevels,hfits,height,hcount,hformedParts,hformedTail⟩:=hformed
  obtain ⟨levels,rfl⟩:=Nat.exists_eq_succ_of_ne_zero (Nat.ne_of_gt hlevels)
  rw [Written.encode] at hnext
  obtain ⟨htagNext,hrest⟩:=next_append hnext
  have hcontent:=hrest ((r.after 1).reserved .code ref) rfl rfl
  obtain ⟨c,r₁,hrun,hcode,hp⟩:=run_codeHead (r:=(r.after 1).reserved .code ref) hparts htail
    hfits hminor (named_reserved hnamed (by decide) ref) height hcount
    (by rw [refs_reserved_length];exact hformedParts)
    (by rw [refs_reserved_length];exact hformedTail) hcontent
  obtain ⟨new,hnew,hmarks⟩:=hcode.marks
  obtain ⟨ids,hshown,hids⟩:=hcode.parts
  have hnoted : Past r₁ (r₁.noted c) 0:=⟨rfl,rfl,rfl,rfl,rfl,prefix_refl _⟩
  have hbody : Ran (codeHead (obj .source levels) >>= finishCode) ((r.after 1).reserved .code ref)
      {k:=.code,code:=some c} (r₁.noted c):=
    ran_bind.mpr ⟨c,r₁,hrun,ran_finishCode.mpr ⟨rfl,rfl⟩⟩
  refine reads_typed (by decide) htagNext (fun _ _ h=>h) (by decide) hbody
    (hcode.grown.trans (hnoted.grown hcode.grown.bound')) (hnoted.named hcode.named) ?_ hnew hmarks
    (by rw [Written.marks]) ?_
  · change r₁.p = _
    rw [hp,Written.encode]
    simp only [length_append,length_singleton]
    change r.p + 1 + _ = _
    omega
  · intro L id hmore hL
    exact ⟨_,c,ids,hL,rfl,rfl,hcode.numbers, .mono hmore (prefix_refl _) _ hshown,hids⟩

mutual

/-- The reader gives each object of the format back. -/
theorem inverts (minor:ℤ) : (t:Written) → Inverts minor t
  | .plain ref tag content=>inverts_plain ref tag content
  | .back index=>inverts_back index
  | .seq ref tag items=>inverts_seq (invertsAll minor items) ref tag
  | .dict ref entries=>inverts_dict (invertsAll minor entries) ref
  | .code ref numbers parts tail=>
    inverts_code (invertsAll minor parts) (invertsAll minor tail) ref numbers

theorem invertsAll (minor:ℤ) : (ts:List Written) → ∀t∈ts,Inverts minor t
  | []=>fun _ h=>absurd h not_mem_nil
  | t::ts=>fun u hu=>
    (mem_cons.mp hu).elim (fun h=>h▸inverts minor t) (invertsAll minor ts u)

end

end

end AutoRefirst.PythonMarshal
