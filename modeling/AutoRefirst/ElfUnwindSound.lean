import AutoRefirst.ElfPointers

/-!
# A resolved unwind plane

The records tile the frame, every FDE refers to an earlier CIE and describes loaded code, and the
search table of the header has the FDEs one to one.
-/

namespace AutoRefirst.Elf
open List Option

variable {log log' : UnwindLog}

theorem unwind_bind {α β:Type} {m:Unwind α} {k:α→Unwind β} {b:β} :
    (m >>= k) log=.ok (b,log') ↔ ∃a mid,m log=.ok (a,mid) ∧ k a mid=.ok (b,log'):=by
  change (m log >>= fun r=>k r.1 r.2) = _ ↔ _
  cases hm : m log with
  | error e=>simp [bind,Except.bind]
  | ok r=>
    constructor
    · intro h
      exact ⟨r.1,r.2,rfl,h⟩
    · rintro ⟨a,mid,hr,h⟩
      obtain rfl:=Except.ok.inj hr
      exact h

theorem unwind_pure {α:Type} {a b:α} :
    (pure a:Unwind α) log=.ok (b,log') ↔ a=b ∧ log=log':=by
  change Except.ok (a,log)=_ ↔ _
  simp

variable {message : String}

theorem failIf_ok {bad:Bool} {u:Unit} :
    failIf bad message log=.ok (u,log') ↔ bad=false ∧ log=log':=by
  cases bad with
  | true=>simp [failIf,failWith,stopWith]
  | false=>
    rw [failIf,if_neg Bool.false_ne_true,unwind_pure]
    simp

theorem unsupportedIf_ok {bad:Bool} {u:Unit} :
    unsupportedIf bad message log=.ok (u,log') ↔ bad=false ∧ log=log':=by
  cases bad with
  | true=>simp [unsupportedIf,stopWith]
  | false=>
    rw [unsupportedIf,if_neg Bool.false_ne_true,unwind_pure]
    simp

theorem orFail_ok {α:Type} {o:Option α} {a:α} :
    orFail message o log=.ok (a,log') ↔ o=some a ∧ log=log':=by
  cases o with
  | none=>simp [orFail,failWith,stopWith]
  | some b=>simpa [orFail] using unwind_pure

theorem stopWith_not {α:Type} {e:EhStop} {a:α} : ¬stopWith e log = .ok (a,log'):=by
  simp [stopWith]

variable (x : UnwindInput)

def Genuine (log : UnwindLog) : Prop :=
  ∀ c∈log.decoded, ehReadEncoded x.data x.le c.field = .ok (c.value,c.next)

def Logs {α : Type} (m : Unwind α) : Prop :=
  ∀ log a log', m log = .ok (a,log') → Genuine x log → Genuine x log'

variable {x}

theorem Logs.pure {α:Type} (a:α) : Logs x (pure a):=by
  intro log b log' h hg
  obtain ⟨-,rfl⟩:=unwind_pure.mp h
  exact hg

theorem Logs.bind {α β:Type} {m:Unwind α} {k:α→Unwind β} (hm:Logs x m)
    (hk:∀a,Logs x (k a)) : Logs x (m >>= k):=by
  intro log b log' h hg
  obtain ⟨a,mid,hrun,hrest⟩:=unwind_bind.mp h
  exact hk a mid b log' hrest (hm log a mid hrun hg)

theorem Logs.stopWith {α:Type} (e:EhStop) : Logs x (stopWith e:Unwind α):=
  fun _ _ _ h=>absurd h stopWith_not

theorem Logs.failIf (bad:Bool) (message:String) : Logs x (failIf bad message):=by
  intro log u log' h hg
  obtain ⟨-,rfl⟩:=failIf_ok.mp h
  exact hg

theorem Logs.check {α:Type} {bad:Bool} {message:String} {k:Unit→Unwind α}
    (h:∀u,Logs x (k u)) : Logs x (Elf.failIf bad message >>= k) := .bind (.failIf bad message) h

theorem Logs.unsupportedIf (bad:Bool) (message:String) :
    Logs x (unsupportedIf bad message):=by
  intro log u log' h hg
  obtain ⟨-,rfl⟩:=unsupportedIf_ok.mp h
  exact hg

theorem Logs.orFail {α:Type} (message:String) (o:Option α) : Logs x (orFail message o):=by
  intro log a log' h hg
  obtain ⟨-,rfl⟩:=orFail_ok.mp h
  exact hg

theorem Logs.charge (n:ℕ) (what:String) : Logs x (charge n what):=by
  intro log u log' h hg
  unfold Elf.charge at h
  split at h
  · cases h
  · obtain ⟨-,rfl⟩:=Prod.mk.inj (Except.ok.inj h)
    exact hg

theorem Logs.decode (what:String) (c:EhField) : Logs x (decode x what c):=by
  intro log r log' h hg
  unfold Elf.decode at h
  split at h
  · cases h
  · cases h
  · rename_i v next hread
    obtain ⟨-,rfl⟩:=Prod.mk.inj (Except.ok.inj h)
    intro e he
    rcases mem_append.mp he with he | he
    · exact hg e he
    · obtain rfl:=mem_singleton.mp he
      exact hread

theorem Logs.ite {α:Type} {p:Prop} [Decidable p] {m m':Unwind α} (h:p→Logs x m)
    (h':¬p → Logs x m') : Logs x (if p then m else m'):=by
  split
  · exact h ‹_›
  · exact h' ‹_›

theorem logs_headerRows (hoff stop:ℕ) (hva:UInt64) (enc n p:ℕ) (rows:List HeaderRow) :
    Logs x (headerRows x hoff stop hva enc n p rows):=by
  induction n generalizing p rows with
  | zero=>exact .pure _
  | succ n ih=>
    exact .bind (.decode _ _) fun _ => .bind (.decode _ _) fun _ => .bind (.unsupportedIf _ _)
      fun _ => .check fun _ => .check fun _ => .bind (.charge _ _)
      fun _=>ih _ _

theorem logs_parseEhHeader (hoff:ℕ) (hva:UInt64) (hsize:ℕ) :
    Logs x (parseEhHeader x hoff hva hsize):=
  .check fun _ => .check fun _ => .bind (.unsupportedIf _ _) fun _=>
  .bind (.unsupportedIf _ _) fun _ => .bind (.decode _ _) fun _ => .bind (.unsupportedIf _ _)
  fun _ => .check fun _ => .bind (.unsupportedIf _ _) fun _ => .bind (.decode _ _)
  fun _ => .bind (.unsupportedIf _ _) fun _ => .check fun _=>
  .bind (.unsupportedIf _ _) fun _ => .bind (logs_headerRows _ _ _ _ _ _ _) fun _=>
  .check fun _ => .pure _

theorem logs_augmentationLetters (f:FramePlace) (ae:ℕ) (letters:Bytes) (p:ℕ)
    (cie:ElfUnwindCie) : Logs x (augmentationLetters x f ae letters p cie):=by
  induction letters generalizing p cie with
  | nil=>exact .pure _
  | cons ch rest ih=>
    exact .ite (fun _ => .check fun _=>ih _ _) fun _=>
      .ite (fun _ => .check fun _=>ih _ _) fun _=>
      .ite (fun _ => .check fun _ => .bind (.decode _ _) fun _=>
        .check fun _ => .check fun _=>ih _ _) fun _=>
      .ite (fun _=>ih _ _) fun _ => .stopWith _

theorem logs_augmentationEnd (message:String) (p rend:ℕ) :
    Logs x (augmentationEnd x message p rend):=
  .bind (.orFail _ _) fun _ => .check fun _ => .pure _

theorem logs_cieAugmentation (f:FramePlace) (p rend:ℕ) (cie:ElfUnwindCie) :
    Logs x (cieAugmentation x f p rend cie):=by
  unfold cieAugmentation
  split
  · exact .pure _
  · exact .ite (fun _ => .bind (logs_augmentationEnd _ _ _) fun _=>
      .bind (logs_augmentationLetters _ _ _ _ _) fun _ => .check fun _ => .pure _)
      fun _ => .stopWith _

theorem logs_parseCie (f:FramePlace) (rows:FrameRows) (rec len:ℕ) :
    Logs x (parseCie x f rows rec len):=
  .check fun _ => .check fun _ => .bind (.unsupportedIf _ _) fun _=>
  .bind (.check fun _ => .check fun _ => .check fun _=>
    .pure _) fun _=>
  .bind (.ite (fun _ => .check fun _ => .bind (.unsupportedIf _ _) fun _ => .pure _)
    fun _ => .pure _) fun _=>
  .bind (.orFail _ _) fun _ => .check fun _ => .bind (.orFail _ _) fun _=>
  .bind (.ite (fun _ => .check fun _ => .pure _) fun _ => .orFail _ _) fun _=>
  .bind (logs_cieAugmentation _ _ _ _) fun _ => .bind (.charge _ _) fun _ => .pure _

theorem logs_fdeAugmentation (f:FramePlace) (cie:ElfUnwindCie) (p rend:ℕ)
    (fde:ElfUnwindFde) : Logs x (fdeAugmentation x f cie p rend fde):=
  .ite (fun _ => .bind (logs_augmentationEnd _ _ _) fun _=>
    .ite (fun _ => .check fun _ => .pure _) fun _=>
      .bind (.decode _ _) fun _ => .check fun _ => .check fun _=>
      .pure _) fun _ => .pure _

theorem logs_parseFde (f:FramePlace) (present:Bool) (rows:FrameRows)
    (rec len ident:ℕ) : Logs x (parseFde x f present rows rec len ident):=
  .check fun _ => .bind (.check fun _ => .orFail _ _) fun _=>
  .bind (.unsupportedIf _ _) fun _ => .bind (.decode _ _) fun _ => .bind (.unsupportedIf _ _)
  fun _ => .check fun _ => .bind (.decode _ _) fun _ => .check fun _=>
  .check fun _ => .bind (.orFail _ _) fun _=>
  .bind (logs_fdeAugmentation _ _ _ _ _) fun _ => .bind (.charge _ _) fun _ => .pure _

theorem logs_parseRecord (f:FramePlace) (present:Bool) (rows:FrameRows) (rec len:ℕ) :
    Logs x (parseRecord x f present rows rec len):=
  .check fun _ => .check fun _=>
  .ite (fun _ => .bind (logs_parseCie _ _ _ _) fun _ => .pure _) fun _=>
    .bind (logs_parseFde _ _ _ _ _ _) fun _ => .pure _

theorem logs_parseRecords (f:FramePlace) (present:Bool) (p:ℕ) (rows:FrameRows) :
    Logs x (parseRecords x f present p rows):=by
  fun_induction parseRecords x f present p rows with
  | case1=>exact .pure _
  | case2=>exact .stopWith _
  | case3 p rows h len h0 h1 ih=>exact .bind (logs_parseRecord _ _ _ _ _) ih
  | case4=>exact .pure _

theorem logs_frame (header:EhHeader) (frameSec:Option ElfSection) :
    Logs x (locateFrame x header frameSec):=by
  unfold locateFrame
  split
  · refine .bind (.orFail _ _) fun ex=>?_
    split
    · exact .check fun _ => .pure _
    · exact .pure _
  · split
    · exact .check fun _ => .check fun _ => .pure _
    · exact .stopWith _

theorem logs_matchRows (fdes:List ElfUnwindFde) (rows:List HeaderRow) (matched:List UInt64) :
    Logs x (matchRows fdes rows matched):=by
  induction rows generalizing matched with
  | nil=>exact .failIf _ _
  | cons h rest ih=>
    exact .bind (.orFail _ _) fun _ => .check fun _ => .check fun _=>
      ih _

theorem logs_resolveUnwind (segments:List ElfSegment) (hdrSecs frameSecs:List ElfSection) :
    Logs x (resolveUnwind x segments hdrSecs frameSecs):=by
  have hheader : ∀place,Logs x (locateHeader x place):=by
    intro place
    unfold locateHeader
    split
    · exact logs_parseEhHeader _ _ _
    · exact .pure _
  have hmatch : ∀header fdes,Logs x (matchHeader header fdes):=fun header fdes=>
    .ite (fun _ => .check fun _ => .check fun _=>
      logs_matchRows _ _ _) fun _ => .pure _
  exact .bind (.unsupportedIf _ _) fun _ => .check fun _ => .bind (.failIf _ _)
    fun _ => .check fun _ => .bind (hheader _) fun _ => .bind (logs_frame _ _)
    fun _ => .bind (logs_parseRecords _ _ _ _) fun _=>
    .bind (.check fun _ => .failIf _ _) fun _ => .bind (hmatch _ _) fun _ => .pure _

/-- The records from `p` up to `q`, one behind the other. -/
def RecordTiles (p : ℕ) : List (ℕ×ℕ) → ℕ → Prop
  | [], q => p = q
  | r::rest, q => r.1 = p ∧ 8 ≤ r.2 ∧ RecordTiles (p+r.2) rest q

variable {p q : ℕ}

theorem RecordTiles.append {l:List (ℕ×ℕ)} (h:RecordTiles p l q) {n:ℕ} (hn:8≤n) :
    RecordTiles p (l++[(q,n)]) (q+n):=by
  induction l generalizing p with
  | nil=>
    obtain rfl : p=q:=h
    exact ⟨rfl,hn,rfl⟩
  | cons r rest ih=>exact ⟨h.1,h.2.1,ih h.2.2⟩

def ElfUnwindCie.extent (c : ElfUnwindCie) : ℕ×ℕ := (c.fileOffset,c.recordSize)

def ElfUnwindFde.extent (f : ElfUnwindFde) : ℕ×ℕ := (f.fileOffset,f.recordSize)

structure FdeSound (segments : List ElfSegment) (cies : List ElfUnwindCie) (f : ElfUnwindFde) :
    Prop where
  cie : ∃ c∈cies, c.fileOffset=f.cieFileOffset ∧ c.va=f.cieVa ∧ c.fileOffset<f.fileOffset
  nonempty : f.functionSize≠0
  nowrap : f.functionStartVa.toNat+f.functionSize.toNat<2^64
  last : f.functionEndVa.toNat=f.functionStartVa.toNat+f.functionSize.toNat
  loaded : ∃ s∈segments, s.type=1 ∧ s.flags % 2 = 1 ∧ s.address≤f.functionStartVa.toNat ∧
    f.functionStartVa.toNat + f.functionSize.toNat ≤ s.address+s.memorySize

theorem FdeSound.mono {segments:List ElfSegment} {cies cies':List ElfUnwindCie}
    {f:ElfUnwindFde} (h:FdeSound segments cies f) (hsub:cies ⊆ cies') :
    FdeSound segments cies' f:=by
  obtain ⟨c,hc,hrest⟩:=h.cie
  exact ⟨⟨c,hsub hc,hrest⟩,h.nonempty,h.nowrap,h.last,h.loaded⟩

theorem loadRange_spec {va size:UInt64} {place:Option ℕ}
    (h:loadRange x va size true=some place) :
    va.toNat + size.toNat<2^64 ∧ ∃s∈x.segments,s.type=1 ∧ s.flags % 2=1 ∧
      s.address≤va.toNat ∧ va.toNat+size.toNat ≤ s.address+s.memorySize:=by
  have hsize:=size.toNat_lt
  unfold loadRange at h
  split at h
  · cases h
  · rename_i hbad
    simp only [Bool.or_eq_true,decide_eq_true_eq,not_or,Nat.not_lt] at hbad
    obtain ⟨s,hs,-⟩:=map_eq_some_iff.mp h
    have hholds:=find?_some hs
    simp only [ElfSegment.holds,Bool.and_eq_true,decide_eq_true_eq,Bool.not_true,
      Bool.false_or] at hholds
    obtain ⟨⟨⟨⟨htype,hexec⟩,haddr⟩,hdelta⟩,hfit⟩:=hholds
    refine ⟨by omega,s,mem_of_find?_eq_some hs,htype,hexec,haddr,by omega⟩

variable {f : FramePlace} {cie : ElfUnwindCie}

theorem augmentationLetters_extent {ae:ℕ} {letters:Bytes} {cie':ElfUnwindCie}
    (h:augmentationLetters x f ae letters p cie log=.ok ((q,cie'),log')) :
    cie'.extent=cie.extent:=by
  induction letters generalizing p cie log with
  | nil=>
    obtain ⟨heq,-⟩:=unwind_pure.mp h
    exact (Prod.mk.inj heq).2▸rfl
  | cons ch rest ih=>
    rw [augmentationLetters] at h
    split at h
    · obtain ⟨_,_,-,h⟩:=unwind_bind.mp h
      have hrest:=ih h
      exact hrest
    split at h
    · obtain ⟨_,_,-,h⟩:=unwind_bind.mp h
      have hrest:=ih h
      exact hrest
    split at h
    · obtain ⟨_,_,-,h⟩:=unwind_bind.mp h
      iterate 3 obtain ⟨_,_,-,h⟩:=unwind_bind.mp h
      have hrest:=ih h
      exact hrest
    split at h
    · have hrest:=ih h
      exact hrest
    · exact absurd h stopWith_not

theorem cieAugmentation_extent {rend:ℕ} {cie':ElfUnwindCie}
    (h:cieAugmentation x f p rend cie log=.ok ((q,cie'),log')) :
    cie'.extent=cie.extent:=by
  unfold cieAugmentation at h
  cases haug : cie.augmentation with
  | nil=>
    rw [haug] at h
    obtain ⟨heq,-⟩:=unwind_pure.mp h
    exact (Prod.mk.inj heq).2▸rfl
  | cons c letters=>
    rw [haug] at h
    dsimp only at h
    split at h
    · obtain ⟨_,_,-,h⟩:=unwind_bind.mp h
      obtain ⟨⟨_,read⟩,_,hletters,h⟩:=unwind_bind.mp h
      obtain ⟨_,_,-,h⟩:=unwind_bind.mp h
      obtain ⟨heq,-⟩:=unwind_pure.mp h
      have hread:=augmentationLetters_extent hletters
      exact (Prod.mk.inj heq).2▸hread
    · exact absurd h stopWith_not

variable {rows : FrameRows} {rec len : ℕ}

theorem parseCie_extent (h:parseCie x f rows rec len log=.ok (cie,log')) :
    cie.extent=(rec,4+len):=by
  unfold parseCie at h
  iterate 9 obtain ⟨_,_,-,h⟩:=unwind_bind.mp h
  obtain ⟨⟨_,read⟩,_,haugmentation,h⟩:=unwind_bind.mp h
  obtain ⟨_,_,-,h⟩:=unwind_bind.mp h
  obtain ⟨rfl,-⟩:=unwind_pure.mp h
  exact cieAugmentation_extent haugmentation

/-- Only the reference to the language's data is added. -/
theorem fdeAugmentation_fields {rend:ℕ} {fde fde':ElfUnwindFde}
    (h:fdeAugmentation x f cie p rend fde log=.ok ((q,fde'),log')) :
    ∃va indirect place,fde' =
      {fde with lsdaReferenceVa:=va,lsdaIndirect:=indirect,lsdaFileOffset:=place}:=by
  unfold fdeAugmentation at h
  split at h
  · obtain ⟨_,_,-,h⟩:=unwind_bind.mp h
    dsimp only at h
    split at h
    · obtain ⟨_,_,-,h⟩:=unwind_bind.mp h
      obtain ⟨heq,-⟩:=unwind_pure.mp h
      exact ⟨_,_,_,(Prod.mk.inj heq).2.symm⟩
    · obtain ⟨_,_,-,h⟩:=unwind_bind.mp h
      obtain ⟨_,_,-,h⟩:=unwind_bind.mp h
      obtain ⟨_,_,-,h⟩:=unwind_bind.mp h
      obtain ⟨heq,-⟩:=unwind_pure.mp h
      exact ⟨_,_,_,(Prod.mk.inj heq).2.symm⟩
  · obtain ⟨heq,-⟩:=unwind_pure.mp h
    exact ⟨_,_,_,(Prod.mk.inj heq).2.symm⟩

variable {present : Bool}

theorem parseFde_sound {ident:ℕ} {fde:ElfUnwindFde} (hcies:∀c∈rows.cies,c.fileOffset < rec)
    (h:parseFde x f present rows rec len ident log=.ok (fde,log')) :
    fde.extent=(rec,4+len) ∧ FdeSound x.segments rows.cies fde:=by
  unfold parseFde at h
  obtain ⟨_,_,-,h⟩:=unwind_bind.mp h
  obtain ⟨cie,_,hcie,h⟩:=unwind_bind.mp h
  obtain ⟨_,_,-,h⟩:=unwind_bind.mp h
  obtain ⟨⟨start,_⟩,_,-,h⟩:=unwind_bind.mp h
  obtain ⟨_,_,-,h⟩:=unwind_bind.mp h
  obtain ⟨_,_,-,h⟩:=unwind_bind.mp h
  obtain ⟨⟨size,_⟩,_,-,h⟩:=unwind_bind.mp h
  obtain ⟨_,_,hsize,h⟩:=unwind_bind.mp h
  obtain ⟨_,_,-,h⟩:=unwind_bind.mp h
  obtain ⟨range,_,hrange,h⟩:=unwind_bind.mp h
  obtain ⟨⟨_,read⟩,_,haugmentation,h⟩:=unwind_bind.mp h
  obtain ⟨_,_,-,h⟩:=unwind_bind.mp h
  obtain ⟨rfl,-⟩:=unwind_pure.mp h
  obtain ⟨va,indirect,place,rfl⟩:=fdeAugmentation_fields haugmentation
  obtain ⟨hnowrap,hloaded⟩:=loadRange_spec (orFail_ok.mp hrange).1
  unfold cieOf at hcie
  obtain ⟨_,_,-,hcie⟩:=unwind_bind.mp hcie
  have hmem : cie∈rows.cies:=mem_of_find?_eq_some (orFail_ok.mp hcie).1
  refine ⟨rfl,⟨⟨cie,hmem,rfl,rfl,hcies cie hmem⟩,?_,hnowrap,?_,hloaded⟩⟩
  · simpa using (failIf_ok.mp hsize).1
  · exact (UInt64.toNat_add start size).trans (Nat.mod_eq_of_lt hnowrap)

/-- What holds of the rows when the records up to `p` were read. -/
structure RowsSound (x : UnwindInput) (f : FramePlace) (rows : FrameRows) (p : ℕ) : Prop where
  tiles : RecordTiles f.off rows.order p
  perm : rows.order.Perm (rows.cies.map ElfUnwindCie.extent ++ rows.fdes.map ElfUnwindFde.extent)
  before : ∀ c∈rows.cies, c.fileOffset<p
  fdes : ∀ fde∈rows.fdes, FdeSound x.segments rows.cies fde

theorem rowsSound_start (x:UnwindInput) (f:FramePlace) : RowsSound x f {} f.off:=
  ⟨rfl,.refl _,fun c hc=>absurd hc (by simp),fun c hc=>absurd hc (by simp)⟩

theorem parseRecord_sound {rows':FrameRows} (hs:RowsSound x f rows rec)
    (h:parseRecord x f present rows rec len log=.ok (rows',log')) :
    rec + 4 + len ≤ max (rec+4) (f.off+f.size) ∧ RowsSound x f rows' (rec+(4+len)):=by
  unfold parseRecord at h
  obtain ⟨_,_,hlen,h⟩:=unwind_bind.mp h
  obtain ⟨_,_,-,h⟩:=unwind_bind.mp h
  have hbounds:=(failIf_ok.mp hlen).1
  simp only [Bool.or_eq_false_iff,decide_eq_false_iff_not,Nat.not_lt] at hbounds
  refine ⟨by omega,?_⟩
  have htiles : RecordTiles f.off (rows.order++[(rec,4+len)]) (rec+(4+len)):=
    hs.tiles.append (by omega)
  split at h
  · obtain ⟨cie,_,hcie,h⟩:=unwind_bind.mp h
    obtain ⟨rfl,-⟩:=unwind_pure.mp h
    have hextent:=parseCie_extent hcie
    refine ⟨htiles,?_,?_,?_⟩
    · rw [map_append,map_singleton,hextent,append_assoc]
      refine (hs.perm.append_right _).trans ?_
      rw [append_assoc]
      exact (perm_append_comm).append_left _
    · intro c hc
      rcases mem_append.mp hc with hc | hc
      · exact (hs.before c hc).trans (by omega)
      · obtain rfl:=mem_singleton.mp hc
        have hoff : c.fileOffset=rec:=(Prod.mk.inj hextent).1
        omega
    · intro fde hfde
      exact (hs.fdes fde hfde).mono (subset_append_left _ _)
  · obtain ⟨fde,_,hfde,h⟩:=unwind_bind.mp h
    obtain ⟨rfl,-⟩:=unwind_pure.mp h
    obtain ⟨hextent,hsound⟩:=parseFde_sound hs.before hfde
    refine ⟨htiles,?_,?_,?_⟩
    · rw [map_append,map_singleton,hextent,← append_assoc]
      exact hs.perm.append_right _
    · intro c hc
      exact (hs.before c hc).trans (by omega)
    · intro g hg
      rcases mem_append.mp hg with hg | hg
      · exact hs.fdes g hg
      · obtain rfl:=mem_singleton.mp hg
        exact hsound

theorem parseRecords_sound {rows':FrameRows} {terminated:Bool} (hs:RowsSound x f rows p)
    (hp:p≤f.off+f.size)
    (h:parseRecords x f present p rows log=.ok ((terminated,q,rows'),log')) :
    RowsSound x f rows' q ∧ q≤f.off+f.size ∧
      (terminated=true → q+4≤f.off+f.size ∧ numberAt x.data x.le q 4=0) ∧
      (terminated=false → f.off+f.size<q+4):=by
  fun_induction parseRecords x f present p rows generalizing log with
  | case1=>
    rename_i p rows hfit len h0
    obtain ⟨heq,-⟩:=unwind_pure.mp h
    obtain ⟨ht,hq,hrows⟩ : true=terminated ∧ p=q ∧ rows=rows':=by simpa using heq
    subst ht hq hrows
    exact ⟨hs,hp,fun _=>⟨hfit,h0⟩,fun hf=>absurd hf (by decide)⟩
  | case2=>exact absurd h stopWith_not
  | case3=>
    rename_i p rows hfit len h0 h1 ih
    obtain ⟨mid,_,hrec,hrest⟩:=unwind_bind.mp h
    obtain ⟨hle,hsound⟩:=parseRecord_sound hs hrec
    have hnext : p+4+len=p+(4+len):=by omega
    exact ih mid (hnext▸hsound) (by omega) hrest
  | case4=>
    rename_i p rows hfit
    obtain ⟨heq,-⟩:=unwind_pure.mp h
    obtain ⟨ht,hq,hrows⟩ : false=terminated ∧ p=q ∧ rows=rows':=by simpa using heq
    subst ht hq hrows
    exact ⟨hs,hp,fun ht=>absurd ht (by decide),fun _=>by omega⟩

end AutoRefirst.Elf

/-!
## The search table, and the plane as a whole

The rows of `.eh_frame_hdr` against the FDEs, and what a resolved plane says of its file.
-/

namespace AutoRefirst.Elf
open List Option

/-- The rows of the search table in ascending order. -/
def RowsSorted (rows : List HeaderRow) : Prop :=
  rows.Pairwise fun r s => r.functionStartVa ≤ s.functionStartVa

variable {rows : List HeaderRow}

theorem RowsSorted.append {row:HeaderRow} (h:RowsSorted rows)
    (hlast:(rows.getLast?.any fun r=>decide (row.functionStartVa < r.functionStartVa))=false) :
    RowsSorted (rows++[row]):=by
  rcases eq_nil_or_concat rows with rfl | ⟨front,last,rfl⟩
  · exact pairwise_singleton _ _
  · rw [concat_eq_append] at h hlast ⊢
    rw [getLast?_append] at hlast
    simp only [getLast?_singleton,some_or,any_some, decide_eq_false_iff_not] at hlast
    have hle : last.functionStartVa ≤ row.functionStartVa:=UInt64.not_lt.mp hlast
    refine pairwise_append.mpr ⟨h,pairwise_singleton _ _,fun r hr s hs=>?_⟩
    obtain rfl:=mem_singleton.mp hs
    rcases mem_append.mp hr with hr | hr
    · have hfront:=(pairwise_append.mp h).2.2 r hr last (mem_singleton_self _)
      exact UInt64.le_trans hfront hle
    · obtain rfl:=mem_singleton.mp hr
      exact hle

variable {x : UnwindInput} {log log' : UnwindLog}

theorem headerRows_sorted {hoff stop enc n p q:ℕ} {hva:UInt64} {rows':List HeaderRow}
    (hs:RowsSorted rows)
    (h:headerRows x hoff stop hva enc n p rows log=.ok ((q,rows'),log')) :
    RowsSorted rows':=by
  induction n generalizing p rows log with
  | zero=>
    obtain ⟨heq,-⟩:=unwind_pure.mp h
    exact (Prod.mk.inj heq).2▸hs
  | succ n ih=>
    rw [headerRows] at h
    obtain ⟨⟨start,_⟩,_,-,h⟩:=unwind_bind.mp h
    obtain ⟨⟨fdeVa,_⟩,_,-,h⟩:=unwind_bind.mp h
    obtain ⟨_,_,-,h⟩:=unwind_bind.mp h
    obtain ⟨_,_,-,h⟩:=unwind_bind.mp h
    obtain ⟨_,_,horder,h⟩:=unwind_bind.mp h
    obtain ⟨_,_,-,h⟩:=unwind_bind.mp h
    exact ih (hs.append (failIf_ok.mp horder).1) h

theorem locateHeader_sorted {place:Option (ℕ×UInt64×ℕ×String)} {header:EhHeader}
    (h:locateHeader x place log=.ok (header,log')) :
    RowsSorted header.rows:=by
  unfold locateHeader at h
  split at h
  · unfold parseEhHeader at h
    iterate 12 obtain ⟨_,_,-,h⟩:=unwind_bind.mp h
    obtain ⟨_,_,hrows,h⟩:=unwind_bind.mp h
    obtain ⟨_,_,-,h⟩:=unwind_bind.mp h
    obtain ⟨rfl,-⟩:=unwind_pure.mp h
    exact headerRows_sorted .nil hrows
  · obtain ⟨rfl,-⟩:=unwind_pure.mp h
    exact .nil

def HeaderRow.link (r : HeaderRow) : UInt64×UInt64 := (r.fdeVa,r.functionStartVa)

def ElfUnwindFde.link (f : ElfUnwindFde) : UInt64×UInt64 := (f.va,f.functionStartVa)

variable {u : Unit}

theorem matchRows_spec {fdes:List ElfUnwindFde} {matched:List UInt64}
    (h:matchRows fdes rows matched log=.ok (u,log')) :
    rows.map HeaderRow.link ⊆ fdes.map ElfUnwindFde.link ∧
      (rows.map HeaderRow.fdeVa).Nodup ∧ ∀r∈rows,r.fdeVa ∉ matched:=by
  induction rows generalizing matched log with
  | nil=>exact ⟨nil_subset _,.nil,fun r hr=>absurd hr (by simp)⟩
  | cons row rest ih=>
    rw [matchRows] at h
    obtain ⟨f,_,hfind,h⟩:=unwind_bind.mp h
    obtain ⟨_,_,hfresh,h⟩:=unwind_bind.mp h
    obtain ⟨_,_,hstart,h⟩:=unwind_bind.mp h
    obtain ⟨hsub,hnodup,hnew⟩:=ih h
    have hfound:=(orFail_ok.mp hfind).1
    have hva : f.va=row.fdeVa:=by simpa using find?_some hfound
    have hsame : f.functionStartVa=row.functionStartVa:=by simpa using (failIf_ok.mp hstart).1
    have hunmatched : row.fdeVa ∉ matched:=by
      rw [← hva]
      simpa using (failIf_ok.mp hfresh).1
    refine ⟨?_,?_,?_⟩
    · rw [map_cons,cons_subset]
      refine ⟨mem_map.mpr ⟨f,mem_of_find?_eq_some hfound,?_⟩,hsub⟩
      rw [ElfUnwindFde.link,HeaderRow.link,hva,hsame]
    · rw [map_cons,nodup_cons]
      refine ⟨fun hmem=>?_,hnodup⟩
      obtain ⟨r,hr,heq⟩:=mem_map.mp hmem
      exact hnew r hr (by simp [heq,hva])
    · intro r hr
      rcases mem_cons.mp hr with rfl | hr
      · exact hunmatched
      · exact fun hmem=>hnew r hr (mem_cons_of_mem _ hmem)

theorem matchHeader_spec {header:EhHeader} {fdes:List ElfUnwindFde}
    (hpresent:header.present=true) (h:matchHeader header fdes log=.ok (u,log')) :
    (fdes.map ElfUnwindFde.va).Nodup ∧
      (header.rows.map HeaderRow.link).Perm (fdes.map ElfUnwindFde.link):=by
  rw [matchHeader,if_pos hpresent] at h
  obtain ⟨_,_,hcount,h⟩:=unwind_bind.mp h
  obtain ⟨_,_,hvas,h⟩:=unwind_bind.mp h
  obtain ⟨hsub,hnodup,-⟩:=matchRows_spec h
  have hlength : header.rows.length=fdes.length:=by simpa using (failIf_ok.mp hcount).1
  have hlinks : (header.rows.map HeaderRow.link).Nodup:=by
    apply List.Nodup.of_map Prod.fst
    rw [List.map_map]
    exact hnodup
  refine ⟨by simpa using (failIf_ok.mp hvas).1,?_⟩
  apply (subperm_of_subset hlinks hsub).perm_of_length_le
  simp [hlength]

def ZeroFrom (d : Bytes) (f : FramePlace) (p : ℕ) : Prop :=
  ∀ b ∈ (d.take (f.off+f.size)).drop p, b=0

def RecordsEnd (x : UnwindInput) (f : FramePlace) (p : ℕ) : Prop :=
  (p+4≤f.off+f.size ∧ numberAt x.data x.le p 4 = 0 ∧
      (f.exact=true → ZeroFrom x.data f (p+4))) ∨
    (f.exact=true ∧ f.off+f.size<p+4 ∧ p≤f.off+f.size ∧ ZeroFrom x.data f p)

theorem checkEnd_spec {f:FramePlace} {terminated:Bool} {p:ℕ} (hp:p≤f.off+f.size)
    (ht:terminated=true → p+4≤f.off+f.size ∧ numberAt x.data x.le p 4=0)
    (hf:terminated=false → f.off+f.size<p+4)
    (h:checkEnd x f terminated p log=.ok (u,log')) : RecordsEnd x f p:=by
  unfold checkEnd at h
  obtain ⟨_,_,hexact,hzero⟩:=unwind_bind.mp h
  have hexact:=(failIf_ok.mp hexact).1
  have hzero:=(failIf_ok.mp hzero).1
  have htail : f.exact=true → ZeroFrom x.data f (if terminated = true then p+4 else p):=by
    intro he b hb
    rw [he,Bool.true_and,List.any_eq_false] at hzero
    simpa using hzero b hb
  cases terminated with
  | true=>exact .inl ⟨(ht rfl).1,(ht rfl).2,htail⟩
  | false=>
    have he : f.exact=true:=by simpa using hexact
    exact .inr ⟨he,hf rfl,hp,htail he⟩

/-- The records, the functions and the search table of a resolved plane. -/
structure UnwindSound (x : UnwindInput) (info : ElfUnwindInfo) : Prop where
  tiles : RecordTiles info.frame.off info.rows.order info.recordsEnd
  perm : info.rows.order.Perm
    (info.rows.cies.map ElfUnwindCie.extent ++ info.rows.fdes.map ElfUnwindFde.extent)
  ending : RecordsEnd x info.frame info.recordsEnd
  fdes : ∀ fde∈info.rows.fdes, FdeSound x.segments info.rows.cies fde
  sorted : RowsSorted info.headerRows
  matched : info.headerPresent=true → (info.rows.fdes.map ElfUnwindFde.va).Nodup ∧
    (info.headerRows.map HeaderRow.link).Perm (info.rows.fdes.map ElfUnwindFde.link)

theorem resolveUnwind_sound {segments:List ElfSegment} {hdrSecs frameSecs:List ElfSection}
    {info:ElfUnwindInfo} (h:resolveUnwind x segments hdrSecs frameSecs log=.ok (info,log')) :
    UnwindSound x info:=by
  unfold resolveUnwind at h
  iterate 4 obtain ⟨_,_,-,h⟩:=unwind_bind.mp h
  obtain ⟨header,_,hheader,h⟩:=unwind_bind.mp h
  obtain ⟨frame,_,-,h⟩:=unwind_bind.mp h
  obtain ⟨⟨terminated,recordsEnd,rows⟩,_,hrecords,h⟩:=unwind_bind.mp h
  obtain ⟨_,_,hend,h⟩:=unwind_bind.mp h
  obtain ⟨_,_,hmatch,h⟩:=unwind_bind.mp h
  obtain ⟨rfl,-⟩:=unwind_pure.mp h
  obtain ⟨hrows,hle,hterminated,hopen⟩:=
    parseRecords_sound (rowsSound_start x frame) (Nat.le_add_right _ _) hrecords
  refine ⟨hrows.tiles,?_,checkEnd_spec hle hterminated hopen hend,?_,
    locateHeader_sorted hheader,fun hpresent=>?_⟩
  · rw [List.map_map]
    exact hrows.perm
  · intro fde hfde
    obtain ⟨g,hg,rfl⟩:=mem_map.mp hfde
    have hsound:=hrows.fdes g hg
    exact ⟨hsound.cie,hsound.nonempty,hsound.nowrap,hsound.last,hsound.loaded⟩
  · rw [List.map_map,List.map_map]
    exact matchHeader_spec hpresent hmatch

/-- What the plane of a file is parsed from. -/
def unwindInput (d : Bytes) (symbolOf : UInt64 → Bool → Bytes×Bool)
    (headerRowSize cieSize fdeSize : ℕ) : UnwindInput :=
  let info := (parseElf d).value
  { data:=d,elf64:=info.header.elf64,le:=info.header.littleEndian,
    machine:=info.header.machine,segments:=info.segments,sections:=info.sections,
    symbolOf,headerRowSize,cieSize,fdeSize }

def PlaneExact (x : UnwindInput) (info : ElfUnwindInfo) (log : UnwindLog) : Prop :=
  UnwindSound x info ∧ ∀ c∈log.decoded, (c.value.toNat : ℤ) = c.defined x.data x.le

theorem parseUnwind_exact_iff {info:ElfUnwindInfo} (h:parseUnwind x=some (.ok (info,log))) :
    PlaneExact x info log ↔ ∀c∈log.decoded,c.SlebFits x.data x.le:=by
  unfold parseUnwind at h
  dsimp only at h
  split at h
  · cases h
  have hrun:=some.inj h
  have hgenuine : Genuine x log:=logs_resolveUnwind _ _ _ _ _ _ hrun (fun c hc=>absurd hc (by simp))
  constructor
  · intro hexact c hc
    exact (decoded_exact_iff (hgenuine c hc)).mp (hexact.2 c hc)
  · intro hfits
    exact ⟨resolveUnwind_sound hrun,fun c hc=>(decoded_exact_iff (hgenuine c hc)).mpr (hfits c hc)⟩

/-- A resolved plane is sound, with exact pointers if and only if no sleb128 number was cut. -/
theorem unwind_plane_exact (d : Bytes) (symbolOf : UInt64 → Bool → Bytes×Bool)
    (headerRowSize cieSize fdeSize : ℕ) :
    (∀ info log, unwindOf d symbolOf headerRowSize cieSize fdeSize=some (.ok (info,log)) →
      PlaneExact (unwindInput d symbolOf headerRowSize cieSize fdeSize) info log) ↔
    ∀ info log, unwindOf d symbolOf headerRowSize cieSize fdeSize=some (.ok (info,log)) →
      ∀ c∈log.decoded,
        c.SlebFits d (unwindInput d symbolOf headerRowSize cieSize fdeSize).le := by
  constructor
  · intro h info log hrun
    exact (parseUnwind_exact_iff hrun).mp (h info log hrun)
  · intro h info log hrun
    exact (parseUnwind_exact_iff hrun).mpr (h info log hrun)

def cutSleb : Bytes :=
  [0x7f,0x45,0x4c,0x46,2,1,1,0,0,0,0,0,0,0,0,0,
    3,0,62,0,1,0,0,0,0,0,0,0,0,0,0,0,64,0,0,0,0,0,0,0,
    0,0,0,0,0,0,0,0,0,0,0,0,64,0,56,0,2,0,0,0,0,0,0,0] ++
  [1,0,0,0,5,0,0,0,0,0,0,0,0,0,0,0,0,0x10,0,0,0,0,0,0,
    0,0x10,0,0,0,0,0,0,237,0,0,0,0,0,0,0,237,0,0,0,0,0,0,0,
    0,0x10,0,0,0,0,0,0] ++
  [0x50,0xe5,0x74,0x64,4,0,0,0,176,0,0,0,0,0,0,0,0xb0,0x10,0,0,0,0,0,0,
    0xb0,0x10,0,0,0,0,0,0,20,0,0,0,0,0,0,0,20,0,0,0,0,0,0,0,
    4,0,0,0,0,0,0,0] ++
  [1,3,3,3,0xc4,0x10,0,0,1,0,0,0,0xdc,0x10,0,0,0xd5,0x10,0,0] ++
  [13,0,0,0,0,0,0,0,1,0x7a,0x52,0,1,0x78,16,1,0x19] ++
  [16,0,0,0,21,0,0,0,0xff,0xff,0xff,0xff,0xff,0xff,0xff,0xff,0xff,1,4,0] ++
  [0,0,0,0]

/-- Whether a resolved plane has a pointer of another value than its encoding defines. -/
def hasInexact (x : UnwindInput) : Option (Except EhStop (ElfUnwindInfo×UnwindLog)) → Bool
  | some (.ok (_,log)) =>
    log.decoded.any fun c => decide ((c.value.toNat : ℤ) ≠ c.defined x.data x.le)
  | _ => false

theorem unwind_plane_cuts : ¬∀info log,
    unwindOf cutSleb (fun _ _=>([],false)) 24 280 160 = some (.ok (info,log)) →
      PlaneExact (unwindInput cutSleb (fun _ _=>([],false)) 24 280 160) info log:=by
  have hcut : hasInexact (unwindInput cutSleb (fun _ _=>([],false)) 24 280 160)
      (unwindOf cutSleb (fun _ _=>([],false)) 24 280 160) = true:=by decide +kernel
  intro h
  match hrun : unwindOf cutSleb (fun _ _=>([],false)) 24 280 160 with
  | some (.ok (info,log))=>
    rw [hrun] at hcut
    obtain ⟨c,hc,hne⟩:=any_eq_true.mp hcut
    exact of_decide_eq_true hne ((h info log hrun).2 c hc)
  | some (.error _)=>simp [hrun,hasInexact] at hcut
  | none=>simp [hrun,hasInexact] at hcut

end AutoRefirst.Elf
