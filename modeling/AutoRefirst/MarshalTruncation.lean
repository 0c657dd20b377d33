import AutoRefirst.MarshalPrograms
import AutoRefirst.MarshalRewrite

/-!
# Truncated marshal streams

A length or index field that is cut off by the end of the input reads as zero, and the
object goes on with it. A stream without such a field is accepted with every read inside
the input, and then no longer stream is accepted.
-/

namespace AutoRefirst.PythonMarshal
open List Option

variable {α : Type} {r r' : Reader}

def Inside (r : Reader) : Prop := ∀ x∈r.reads, x.1+x.2 ≤ r.d.length

theorem Grown.inside (h:Grown r r') (hin:Inside r') : Inside r:=by
  intro x hx
  have:=hin x (h.reads.subset hx)
  rwa [h.d] at this

variable {n : ℕ}

theorem inside_after (hin:Inside r) (hn:r.p+n ≤ r.d.length) : Inside (r.after n):=by
  intro x hx
  rcases mem_append.mp hx with hx | hx
  · exact hin x hx
  · rw [mem_singleton.mp hx]
    exact hn

theorem not_inside_short (hn:r.d.length < r.p+n) : ¬Inside (r.short n):=by
  obtain ⟨e,o,hshort⟩:=short_eq r n
  intro hin
  have hmem : (r.p,n)∈(r.short n).reads:=by
    rw [hshort]
    exact mem_append_right _ (mem_singleton.mpr rfl)
  have hle:=hin _ hmem
  rw [hshort] at hle
  exact absurd hle (Nat.not_le_of_lt hn)

theorem readBytes_inside {b:Bytes} (hp:r.p ≤ r.d.length) (h:Ran (readBytes n) r b r')
    (hin:Inside r') : r.p+n ≤ r.d.length:=by
  rcases readBytes_cases hp h with ⟨hn,-,-⟩ | ⟨hn,-,rfl⟩
  · exact hn
  · exact absurd hin (not_inside_short hn)

theorem ran_check (hn:r.p+n ≤ r.d.length) : Ran (check n) r () r:=by
  have hneed : r.need n=true:=(need_iff (by omega)).mpr hn
  unfold Ran check
  rw [if_pos hneed]

variable {a : ℕ}

theorem checked_u8 (hp:r.p ≤ r.d.length) :
    Ran Fields.checked.u8 r a r' ↔ Ran u8 r a r' ∧ r.p+1 ≤ r.d.length:=by
  constructor
  · intro h
    obtain ⟨-,hn,h⟩:=(ran_guarded (.check 1) hp).mp h
    exact ⟨ran_bind.mpr ⟨_,_,(ran_readBytes hn).mpr ⟨rfl,rfl⟩,h⟩,hn⟩
  · rintro ⟨h,hn⟩
    exact ran_bind.mpr ⟨(),r,ran_check hn,h⟩

theorem checked_i32 {a:ℤ} (hp:r.p ≤ r.d.length) :
    Ran Fields.checked.i32 r a r' ↔ Ran i32 r a r' ∧ r.p+4 ≤ r.d.length:=by
  constructor
  · intro h
    obtain ⟨-,hn,h⟩:=(ran_guarded (.check 4) hp).mp h
    exact ⟨ran_bind.mpr ⟨_,_,(ran_readBytes hn).mpr ⟨rfl,rfl⟩,h⟩,hn⟩
  · rintro ⟨h,hn⟩
    exact ran_bind.mpr ⟨(),r,ran_check hn,h⟩

theorem u8_inside (hp:r.p ≤ r.d.length) (h:Ran u8 r a r') (hin:Inside r') :
    r.p + 1 ≤ r.d.length:=by
  obtain ⟨b,r₁,hread,hpure⟩:=ran_bind.mp h
  rw [ran_pure] at hpure
  rw [← hpure.2] at hin
  exact readBytes_inside hp hread hin

theorem i32_inside {a:ℤ} (hp:r.p ≤ r.d.length) (h:Ran i32 r a r') (hin:Inside r') :
    r.p + 4 ≤ r.d.length:=by
  obtain ⟨b,r₁,hread,hpure⟩:=ran_bind.mp h
  rw [ran_pure] at hpure
  rw [← hpure.2] at hin
  exact readBytes_inside hp hread hin

theorem u8_keeps_inside (hn:r.p+1 ≤ r.d.length) (h:Ran u8 r a r') (hin:Inside r) :
    Inside r':=by
  obtain ⟨b,r₁,hread,hpure⟩:=ran_bind.mp h
  obtain ⟨-,rfl⟩:=(ran_readBytes hn).mp hread
  rw [ran_pure] at hpure
  rw [← hpure.2]
  exact inside_after hin hn

theorem i32_keeps_inside {a:ℤ} (hn:r.p+4 ≤ r.d.length) (h:Ran i32 r a r') (hin:Inside r) :
    Inside r':=by
  obtain ⟨b,r₁,hread,hpure⟩:=ran_bind.mp h
  obtain ⟨-,rfl⟩:=(ran_readBytes hn).mp hread
  rw [ran_pure] at hpure
  rw [← hpure.2]
  exact inside_after hin hn

variable {m m' : ReadM α}

/-- With every read inside the input the checked reader does the same. -/
theorem Program.strict (h:Program m m') {a:α} (hp:r.p ≤ r.d.length) (hrun:Ran m r a r')
    (hin:Inside r') : Ran m' r a r':=by
  induction h generalizing r r' with
  | pure=>exact hrun
  | bind hm hk ihm ihk=>
    obtain ⟨x,r₁,hrunm,hrunk⟩:=ran_bind.mp hrun
    have h₁:=hm.grown hp hrunm
    have hin₁:=((hk x).grown h₁.bound' hrunk).inside hin
    exact ran_bind.mpr ⟨x,r₁,ihm hp hrunm hin₁,ihk x h₁.bound' hrunk hin⟩
  | failAt=>exact hrun
  | fail=>exact hrun
  | position=>exact hrun
  | read hg _ ih=>
    obtain ⟨hguard,hroom,hk⟩:=(ran_guarded hg hp).mp hrun
    exact (ran_guarded hg hp).mpr ⟨hguard,hroom,ih _ hroom hk hin⟩
  | readAt hg _ ih=>
    obtain ⟨hguard,hroom,hk⟩:=(ran_guardedAt hg hp).mp hrun
    exact (ran_guardedAt hg hp).mpr ⟨hguard,hroom,ih _ _ hroom hk hin⟩
  | field8=>exact (checked_u8 hp).mpr ⟨hrun,u8_inside hp hrun hin⟩
  | field32=>exact (checked_i32 hp).mpr ⟨hrun,i32_inside hp hrun hin⟩
  | refAt=>exact hrun
  | kindOf=>exact hrun
  | minorIs=>exact hrun
  | withNode ref _ _ _ ih=>
    obtain ⟨n,r₁,hbody,hid,rfl⟩:=ran_withNode.mp hrun
    exact ran_withNode.mpr ⟨n,r₁,ih hp hbody hin,hid,rfl⟩
  | countCode=>exact hrun
  | @code ref head head' _ _ ih=>
    obtain ⟨n,r₁,hbody,hid,rfl⟩:=ran_withNode.mp hrun
    obtain ⟨c,r₂,hhead,hfinish⟩:=ran_bind.mp hbody
    have hr₁:=(ran_finishCode.mp hfinish).2
    have hp' : (r.reserved .code ref).p≤(r.reserved .code ref).d.length:=hp
    have hhead':=ih hp' hhead (by rw [hr₁] at hin;exact hin)
    exact ran_withNode.mpr ⟨n,r₁,ran_bind.mpr ⟨c,r₂,hhead',hfinish⟩,hid,rfl⟩

/-- What the checked reader does, the reader does, with every read inside the input. -/
theorem Program.lenient (h:Program m m') {a:α} (hp:r.p ≤ r.d.length) (hrun:Ran m' r a r')
    (hin:Inside r) : Ran m r a r' ∧ Inside r':=by
  induction h generalizing r r' with
  | pure=>
    refine ⟨hrun,?_⟩
    rw [ran_pure] at hrun
    rwa [← hrun.2]
  | bind hm hk ihm ihk=>
    obtain ⟨x,r₁,hrunm,hrunk⟩:=ran_bind.mp hrun
    obtain ⟨hsrc,hin₁⟩:=ihm hp hrunm hin
    obtain ⟨hsrck,hin'⟩:=ihk x (hm.grown hp hsrc).bound' hrunk hin₁
    exact ⟨ran_bind.mpr ⟨x,r₁,hsrc,hsrck⟩,hin'⟩
  | failAt=>exact absurd hrun not_ran_failAt
  | fail=>exact absurd hrun not_ran_fail
  | position=>
    refine ⟨hrun,?_⟩
    rwa [(ran_position.mp hrun).2]
  | read hg _ ih=>
    obtain ⟨hguard,hroom,hk⟩:=(ran_guarded hg hp).mp hrun
    obtain ⟨hsrc,hin'⟩:=ih _ hroom hk (inside_after hin hroom)
    exact ⟨(ran_guarded hg hp).mpr ⟨hguard,hroom,hsrc⟩,hin'⟩
  | readAt hg _ ih=>
    obtain ⟨hguard,hroom,hk⟩:=(ran_guardedAt hg hp).mp hrun
    obtain ⟨hsrc,hin'⟩:=ih _ _ hroom hk (inside_after hin hroom)
    exact ⟨(ran_guardedAt hg hp).mpr ⟨hguard,hroom,hsrc⟩,hin'⟩
  | field8=>
    obtain ⟨hsrc,hn⟩:=(checked_u8 hp).mp hrun
    exact ⟨hsrc,u8_keeps_inside hn hsrc hin⟩
  | field32=>
    obtain ⟨hsrc,hn⟩:=(checked_i32 hp).mp hrun
    exact ⟨hsrc,i32_keeps_inside hn hsrc hin⟩
  | refAt=>
    refine ⟨hrun,?_⟩
    rwa [(ran_refAt.mp hrun).2.2]
  | kindOf=>
    refine ⟨hrun,?_⟩
    rwa [(ran_kindOf.mp hrun).2]
  | minorIs=>
    refine ⟨hrun,?_⟩
    rwa [(ran_minorIs.mp hrun).2]
  | @withNode k ref body body' _ _ _ ih=>
    obtain ⟨n,r₁,hbody,hid,rfl⟩:=ran_withNode.mp hrun
    have hp' : (r.reserved k ref).p≤(r.reserved k ref).d.length:=hp
    obtain ⟨hsrc,hin₁⟩:=ih hp' hbody hin
    exact ⟨ran_withNode.mpr ⟨n,r₁,hsrc,hid,rfl⟩,hin₁⟩
  | countCode=>
    refine ⟨hrun,?_⟩
    rw [← ((Prod.mk.injEq _ _ _ _).mp hrun).2]
    exact hin
  | @code ref head head' _ _ ih=>
    obtain ⟨n,r₁,hbody,hid,rfl⟩:=ran_withNode.mp hrun
    obtain ⟨c,r₂,hhead,hfinish⟩:=ran_bind.mp hbody
    have hp' : (r.reserved .code ref).p≤(r.reserved .code ref).d.length:=hp
    obtain ⟨hsrc,hin₂⟩:=ih hp' hhead hin
    refine ⟨ran_withNode.mpr ⟨n,r₁,ran_bind.mpr ⟨c,r₂,hsrc,hfinish⟩,hid,rfl⟩,?_⟩
    rw [(ran_finishCode.mp hfinish).2]
    exact hin₂

def Reader.extend (r : Reader) (x : Bytes) : Reader := {r with d:=r.d++x}

theorem extend_length (r:Reader) (x:Bytes) : (r.extend x).d.length=r.d.length+x.length:=
  length_append

theorem window_extend (x:Bytes) (hn:r.p+n ≤ r.d.length) : (r.extend x).window n=r.window n:=by
  show ((r.d++x).drop r.p).take n = (r.d.drop r.p).take n
  rw [drop_append_of_le_length (by omega),take_append_of_le_length]
  rw [length_drop]
  omega

theorem Guard.extend {g:ReadM Unit} (hg:Guard g n) (hp:r.p ≤ r.d.length) (x:Bytes)
    (h:Ran g r () r) : Ran g (r.extend x) () (r.extend x):=by
  have hlen:=extend_length r x
  have hroom:=(hg.ran h).2 hp
  cases hg with
  | check n=>exact ran_check (by show r.p+n ≤ _;omega)
  | room n s=>
    unfold Ran PythonMarshal.room
    rw [if_neg (by show ¬n > (r.extend x).d.length - r.p;omega)]

theorem readBytes_extend {b:Bytes} (hn:r.p+n ≤ r.d.length) (x:Bytes)
    (h:Ran (readBytes n) r b r') : Ran (readBytes n) (r.extend x) b (r'.extend x):=by
  obtain ⟨rfl,rfl⟩:=(ran_readBytes hn).mp h
  have hlen:=extend_length r x
  rw [← window_extend x hn]
  exact (ran_readBytes (by show r.p+n ≤ _;omega)).mpr ⟨rfl,rfl⟩

/-- With every read inside the input, more input at the end changes nothing. -/
theorem Program.extended (h:Program m m') {a:α} (hp:r.p ≤ r.d.length) (x:Bytes)
    (hrun:Ran m r a r') (hin:Inside r') :
    Ran m (r.extend x) a (r'.extend x):=by
  have hle : ∀r : Reader,r.p ≤ r.d.length → (r.extend x).p≤(r.extend x).d.length:=by
    intro r hr
    rw [extend_length]
    exact Nat.le_trans hr (Nat.le_add_right _ _)
  induction h generalizing r r' with
  | pure=>
    rw [ran_pure] at hrun ⊢
    exact ⟨hrun.1,congrArg (Reader.extend · x) hrun.2⟩
  | bind hm hk ihm ihk=>
    obtain ⟨y,r₁,hrunm,hrunk⟩:=ran_bind.mp hrun
    have h₁:=hm.grown hp hrunm
    have hin₁:=((hk y).grown h₁.bound' hrunk).inside hin
    exact ran_bind.mpr ⟨y,_,ihm hp hrunm hin₁,ihk y h₁.bound' hrunk hin⟩
  | failAt=>exact absurd hrun not_ran_failAt
  | fail=>exact absurd hrun not_ran_fail
  | position=>
    obtain ⟨rfl,rfl⟩:=ran_position.mp hrun
    exact ran_position.mpr ⟨rfl,rfl⟩
  | read hg _ ih=>
    obtain ⟨hguard,hroom,hk⟩:=(ran_guarded hg hp).mp hrun
    refine (ran_guarded hg (hle r hp)).mpr ⟨hg.extend hp x hguard,?_,?_⟩
    · exact hle (r.after _) hroom
    · rw [window_extend x hroom]
      exact ih _ hroom hk hin
  | readAt hg _ ih=>
    obtain ⟨hguard,hroom,hk⟩:=(ran_guardedAt hg hp).mp hrun
    refine (ran_guardedAt hg (hle r hp)).mpr ⟨hg.extend hp x hguard,?_,?_⟩
    · exact hle (r.after _) hroom
    · rw [window_extend x hroom]
      exact ih _ _ hroom hk hin
  | field8=>
    have hn:=u8_inside hp hrun hin
    obtain ⟨b,r₁,hread,hpure⟩:=ran_bind.mp hrun
    refine ran_bind.mpr ⟨b,_,readBytes_extend hn x hread,?_⟩
    rw [ran_pure] at hpure ⊢
    exact ⟨hpure.1,congrArg (Reader.extend · x) hpure.2⟩
  | field32=>
    have hn:=i32_inside hp hrun hin
    obtain ⟨b,r₁,hread,hpure⟩:=ran_bind.mp hrun
    refine ran_bind.mpr ⟨b,_,readBytes_extend hn x hread,?_⟩
    rw [ran_pure] at hpure ⊢
    exact ⟨hpure.1,congrArg (Reader.extend · x) hpure.2⟩
  | refAt=>
    obtain ⟨hneg,hget,rfl⟩:=ran_refAt.mp hrun
    exact ran_refAt.mpr ⟨hneg,hget,rfl⟩
  | kindOf=>
    obtain ⟨hget,rfl⟩:=ran_kindOf.mp hrun
    exact ran_kindOf.mpr ⟨hget,rfl⟩
  | minorIs=>
    obtain ⟨hb,rfl⟩:=ran_minorIs.mp hrun
    exact ran_minorIs.mpr ⟨hb,rfl⟩
  | @withNode k ref body body' _ _ _ ih=>
    obtain ⟨n,r₁,hbody,hid,rfl⟩:=ran_withNode.mp hrun
    have hp' : (r.reserved k ref).p≤(r.reserved k ref).d.length:=hp
    exact ran_withNode.mpr ⟨n,r₁.extend x,ih hp' hbody hin,hid,rfl⟩
  | countCode=>
    obtain ⟨-,rfl⟩:=(Prod.mk.injEq _ _ _ _).mp hrun
    rfl
  | @code ref head head' _ _ ih=>
    obtain ⟨n,r₁,hbody,hid,rfl⟩:=ran_withNode.mp hrun
    obtain ⟨c,r₂,hhead,hfinish⟩:=ran_bind.mp hbody
    obtain ⟨rfl,rfl⟩:=ran_finishCode.mp hfinish
    have hp' : (r.reserved .code ref).p≤(r.reserved .code ref).d.length:=hp
    have hhead':=ih hp' hhead hin
    exact ran_withNode.mpr ⟨_,(r₂.noted c).extend x,
      ran_bind.mpr ⟨c,r₂.extend x,hhead',ran_finishCode.mpr ⟨rfl,rfl⟩⟩,hid,rfl⟩

/-- The functions that report a stream as valid. -/
inductive Acceptor
  | inspect
  | remap (map : OpcodeMap)
  | normalize (dispatch : DispatchInfo)

def Accepts (sha : Bytes→Bytes) (A : Acceptor) (d : Bytes) (version : ℤ) : Prop :=
  match A with
  | .inspect => (inspectRootCode d version).valid
  | .remap map => ∃ fuel out, remapOpcodes sha fuel d version map = some out ∧ out.valid
  | .normalize dispatch =>
    ∃ fuel out, normalizeOpcodes sha fuel d version dispatch = some out ∧ out.valid

def ReadsInside (d : Bytes) (version : ℤ) : Prop :=
  ∀ x∈(parseRoot .source d (minorFromVersion version)).2.reads, x.1+x.2≤d.length

/-- A reader that asks for the bytes of every length and index field first reads the stream to
its end as well. -/
def Complete (d : Bytes) (version : ℤ) : Prop :=
  ∃ root r, parseRoot .checked d (minorFromVersion version) = (some root,r) ∧ r.p=d.length

/-- The stream is one object, up to its end. -/
def ReadToEnd (d : Bytes) (version : ℤ) : Prop :=
  ∃ root r, parseRoot .source d (minorFromVersion version) = (some root,r) ∧ r.p=d.length

variable {d : Bytes} {version : ℤ}

theorem readCode_ok {root:ℕ} (h:readCode d version=.ok (root,r)) :
    parseRoot .source d (minorFromVersion version)=(some root,r) ∧ r.p=d.length ∧
      r.heap[root]?.map Node.k=some .code:=by
  unfold readCode at h
  dsimp only at h
  split_ifs at h
  split at h
  · simp at h
  · next root' r' hparse=>
    split_ifs at h with hkind hend
    rw [Except.ok.injEq,Prod.mk.injEq] at h
    obtain ⟨rfl,rfl⟩:=h
    exact ⟨hparse,not_not.mp hend,not_not.mp hkind⟩

variable {sha : Bytes→Bytes} {fuel : ℕ}

theorem semanticHash_valid {out:Semantic} (h:semanticHash sha fuel d version=some out)
    (hvalid:out.valid) :
    ∃root r c,readCode d version=.ok (root,r) ∧ canonOne fuel r.heap root=some c ∧
      out = {r.out with sha256:=sha c,valid:=true}:=by
  unfold semanticHash at h
  split at h
  · next out' herror=>
    rw [← some.inj h] at hvalid
    simp at hvalid
  · next root r hcode=>
    obtain ⟨c,hc,hout⟩:=bind_eq_some_iff.mp h
    exact ⟨root,r,c,hcode,hc,(some.inj hout).symm⟩

theorem semanticHash_readToEnd {out:Semantic} (h:semanticHash sha fuel d version=some out)
    (hvalid:out.valid) :
    ReadToEnd d version:=by
  obtain ⟨root,r,-,hcode,-,-⟩:=semanticHash_valid h hvalid
  obtain ⟨hparse,hend,-⟩:=readCode_ok hcode
  exact ⟨root,r,hparse,hend⟩

theorem inspect_readToEnd (h:(inspectRootCode d version).valid) : ReadToEnd d version:=by
  unfold inspectRootCode at h
  dsimp only at h
  split_ifs at h
  split at h
  · simp at h
  · next root r hparse=>
    split at h
    · simp at h
    · split_ifs at h with hend
      exact ⟨root,r,hparse,not_not.mp hend⟩

theorem remap_layout {map:OpcodeMap} {out:OpcodeRewrite}
    (h:remapOpcodes sha fuel d version map=some out) (hvalid:out.valid) :
    ∃layout,semanticHash sha fuel d version=some layout ∧ layout.valid:=by
  unfold remapOpcodes at h
  obtain ⟨layout,hlayout,h⟩:=bind_eq_some_iff.mp h
  refine ⟨layout,hlayout,?_⟩
  by_contra hinvalid
  rw [if_pos hinvalid] at h
  rw [← some.inj h] at hvalid
  simp at hvalid

theorem normalize_remap {dispatch:DispatchInfo} {out:OpcodeRewrite}
    (h:normalizeOpcodes sha fuel d version dispatch=some out) (hvalid:out.valid) :
    ∃map,remapOpcodes sha fuel d version map=some out:=by
  unfold normalizeOpcodes at h
  split_ifs at h with hmatch hother
  · exact ⟨_,h⟩
  · rw [← some.inj h] at hvalid
    simp at hvalid
  · exact ⟨_,h⟩

theorem Accepts.readToEnd {A:Acceptor} (h:Accepts sha A d version) : ReadToEnd d version:=by
  have hremap : ∀fuel map out,remapOpcodes sha fuel d version map=some out → out.valid →
      ReadToEnd d version:=by
    intro fuel map out hout hvalid
    obtain ⟨layout,hlayout,hlvalid⟩:=remap_layout hout hvalid
    exact semanticHash_readToEnd hlayout hlvalid
  cases A with
  | inspect=>exact inspect_readToEnd h
  | remap map=>
    obtain ⟨fuel,out,hout,hvalid⟩:=h
    exact hremap fuel map out hout hvalid
  | normalize dispatch=>
    obtain ⟨fuel,out,hout,hvalid⟩:=h
    obtain ⟨map,hmap⟩:=normalize_remap hout hvalid
    exact hremap fuel map out hmap hvalid

/-- A complete stream is read with every read inside it. -/
theorem Complete.run (h:Complete d version) :
    ∃root r,parseRoot .source d (minorFromVersion version)=(some root,r) ∧ r.p=d.length ∧
      Inside r:=by
  obtain ⟨root,r,hparse,hend⟩:=h
  have hin : Inside (start d (minorFromVersion version)):=fun x hx=>absurd hx (by simp [start])
  obtain ⟨hsrc,hinside⟩:=(program_obj maxLevels).lenient (Nat.zero_le _) hparse hin
  exact ⟨root,r,hsrc,hend,hinside⟩

theorem Complete.not_readToEnd_append (h:Complete d version) {x:Bytes} (hx:x≠[]) :
    ¬ReadToEnd (d++x) version:=by
  obtain ⟨root,r,hparse,hend,hinside⟩:=h.run
  rintro ⟨root',r',hparse',hend'⟩
  have hstart : (start d (minorFromVersion version)).extend x =
      start (d++x) (minorFromVersion version):=rfl
  have hrun:=(program_obj maxLevels).extended (Nat.zero_le _) x hparse hinside
  rw [hstart] at hrun
  have hr : r.extend x=r':=hrun.unique hparse'
  have hp : r'.p=r.p:=by rw [← hr];rfl
  have hlen:=length_pos_iff.mpr hx
  rw [hp,hend,length_append] at hend'
  omega

/-- An accepted stream was read inside the input, and is no proper prefix of an accepted stream,
if and only if it is complete. -/
theorem accepted_untruncated_iff (sha : Bytes→Bytes) (A : Acceptor) (d : Bytes) (version : ℤ)
    (h : Accepts sha A d version) :
    (ReadsInside d version ∧ ∀ B x, x≠[] → ¬Accepts sha B (d++x) version) ↔
      Complete d version := by
  constructor
  · rintro ⟨hinside,-⟩
    obtain ⟨root,r,hparse,hend⟩:=h.readToEnd
    have hgrown:=(program_obj maxLevels).grown (Nat.zero_le _) hparse
    have hin : Inside r:=by
      intro y hy
      have hle:=hinside y (by rw [hparse];exact hy)
      rwa [hgrown.d]
    exact ⟨root,r,(program_obj maxLevels).strict (Nat.zero_le _) hparse hin,hend⟩
  · intro hcomplete
    constructor
    · obtain ⟨root,r,hparse,-,hinside⟩:=hcomplete.run
      have hgrown:=(program_obj maxLevels).grown (Nat.zero_le _) hparse
      intro y hy
      rw [hparse] at hy
      have hle:=hinside y hy
      rwa [hgrown.d] at hle
    · intro B x hx haccept
      exact hcomplete.not_readToEnd_append hx haccept.readToEnd

/-- An empty code object of Python 3.8 up to the tag of its line table. -/
def cutStream : Bytes :=
  byte 'c' :: List.replicate 24 0 ++
    [byte 's',0,0,0,0,byte ')',0,byte ')',0,byte ')',0,byte ')',0,byte ')',0,
      byte 'z',0,byte 'z',0,0,0,0,0,byte 's']

/-- The same code object with the length of its line table. -/
def wholeStream : Bytes := cutStream++[0,0,0,0]

theorem accepts_remap {map:OpcodeMap}
    (h:(remapOpcodes sha fuel d version map).map OpcodeRewrite.valid=some true) :
    Accepts sha (.remap map) d version:=by
  obtain ⟨out,hout,hvalid⟩:=map_eq_some_iff.mp h
  exact ⟨fuel,out,hout,hvalid⟩

theorem complete_of_run (h:(parseRoot .checked d (minorFromVersion version)).1.isSome)
    (hend:(parseRoot .checked d (minorFromVersion version)).2.p=d.length) :
    Complete d version:=by
  rcases hparse : parseRoot .checked d (minorFromVersion version) with ⟨_ | root,r⟩
  · rw [hparse] at h
    simp at h
  · rw [hparse] at hend
    exact ⟨root,r,hparse,hend⟩

theorem not_readsInside {at_:ℕ}
    (h:(at_,n)∈(parseRoot .source d (minorFromVersion version)).2.reads)
    (hlt:d.length<at_+n) : ¬ReadsInside d version:=by
  intro hinside
  exact absurd (hinside _ h) (Nat.not_le_of_lt hlt)

/-- The cut stream is accepted, also as a stream whose opcodes are mapped or normalised, although
a length was read behind its end, and it is a proper prefix of an accepted stream. -/
theorem cutStream_accepted : Accepts id .inspect cutStream 38 ∧
      Accepts id (.remap fun op=>op.toNat) cutStream 38 ∧
      Accepts id (.normalize ⟨"REFERENCE_MATCH",[]⟩) cutStream 38 ∧
      ¬ReadsInside cutStream 38 ∧ Accepts id .inspect (cutStream++[0,0,0,0]) 38:=by
  have hremap : (remapOpcodes id 100 cutStream 38 fun op=>op.toNat).map OpcodeRewrite.valid =
      some true:=by decide +kernel
  have hcut : (inspectRootCode cutStream 38).valid=true:=by decide +kernel
  have hwhole : (inspectRootCode (cutStream++[0,0,0,0]) 38).valid=true:=by decide +kernel
  have hread : (49,4)∈(parseRoot .source cutStream (minorFromVersion 38)).2.reads:=by
    decide +kernel
  have hnormalize : Accepts id (.normalize ⟨"REFERENCE_MATCH",[]⟩) cutStream 38:=by
    obtain ⟨fuel,out,hout,hvalid⟩:=accepts_remap hremap
    refine ⟨fuel,out,?_,hvalid⟩
    rw [normalizeOpcodes,if_pos rfl]
    exact hout
  exact ⟨hcut,accepts_remap hremap,hnormalize,not_readsInside hread (by decide),hwhole⟩

theorem accepted_untruncated_iff_wholeStream :
    ReadsInside wholeStream 38 ∧ ∀B x, x≠[] → ¬Accepts id B (wholeStream++x) 38:=by
  have haccept : (inspectRootCode wholeStream 38).valid=true:=by decide +kernel
  have hcomplete : Complete wholeStream 38:=complete_of_run (by decide +kernel) (by decide +kernel)
  exact (accepted_untruncated_iff id .inspect wholeStream 38 haccept).mpr hcomplete

end AutoRefirst.PythonMarshal
