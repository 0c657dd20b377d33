import AutoRefirst.ElfScan

/-!
# Which sums of the scan fit

The sums of a table can wrap at its first entry only, since a later one starts behind an entry in
the file. The sums of extents and of names are conditions on the fields themselves.
-/

namespace AutoRefirst.Elf
open Scan List

theorem numberAt_lt (d:Bytes) (le:Bool) (off w:ℕ) : numberAt d le off w<256^w:=by
  refine Nat.lt_of_lt_of_le (littleEndian_lt _) (Nat.pow_le_pow_right (by omega) ?_)
  cases le <;> simp <;> omega

section
variable {d : Bytes} {off w : ℕ}

theorem rd_eq (le:Bool) (h:off+w<2^64) : rd d off le w =
      pure (if off+w > d.length then none else some (numberAt d le off w)):=by
  unfold rd
  rw [sum_eq h,pure_bind]
  split
  · rfl
  · rw [touch_eq (by omega),pure_bind]
    rfl

/-- The value of a field: 0 behind the end. -/
def fieldAt (d : Bytes) (le : Bool) (off w : ℕ) : ℕ :=
  if off+w > d.length then 0 else numberAt d le off w

theorem fieldAt_lt (d:Bytes) (le:Bool) (off w:ℕ) : fieldAt d le off w<256^w:=by
  unfold fieldAt
  split
  · exact Nat.pow_pos (by omega)
  · exact numberAt_lt d le off w

variable {o : ℕ}

theorem field_eq {k:ℕ} (le:Bool) (h:o+k+w<2^64) :
    field d o k le w=pure (fieldAt d le (o+k) w):=by
  unfold field fieldAt
  rw [sum_eq (by omega),pure_bind,rd_eq le h,pure_bind]
  split <;> rfl

/-- What the fields of a header are below. -/
structure HeaderBounds (h : ElfHeader) : Prop where
  phoff : h.phoff<2^64
  shoff : h.shoff<2^64
  phentsize : h.phentsize<2^16
  shentsize : h.shentsize<2^16

theorem readHeaderFields_eq (d:Bytes) (elf64 le:Bool) :
    ∃h,readHeaderFields d elf64 le=pure h ∧ HeaderBounds h:=by
  have h16 : ∀off,fieldAt d le off 2<2^16:=fun off=>fieldAt_lt d le off 2
  have h64 : ∀off w,w=4 ∨ w=8 → fieldAt d le off w<2^64:=by
    rintro off w (rfl | rfl)
    · exact Nat.lt_trans (fieldAt_lt d le off 4) (by decide)
    · exact fieldAt_lt d le off 8
  unfold readHeaderFields
  cases elf64 with
  | true=>
    simp only [if_true]
    repeat rw [field_eq le (by decide),pure_bind]
    exact ⟨_,rfl,h64 _ _ (.inr rfl),h64 _ _ (.inr rfl),h16 _,h16 _⟩
  | false=>
    simp only [Bool.false_eq_true,if_false]
    repeat rw [field_eq le (by decide),pure_bind]
    exact ⟨_,rfl,h64 _ _ (.inl rfl),h64 _ _ (.inl rfl),h16 _,h16 _⟩

theorem readHeader_eq (d:Bytes) : ∃r,readHeader d=pure r ∧ ∀h,r=.ok h → HeaderBounds h:=by
  have herror : ∀(message:String) (h:ElfHeader),
      (.error message : Except String ElfHeader)=.ok h → HeaderBounds h:=by
    intro message h heq
    cases heq
  unfold readHeader
  split
  · exact ⟨_,rfl,herror _⟩
  · rename_i hlen
    rw [touch_eq (by omega),pure_bind]
    split
    · exact ⟨_,rfl,herror _⟩
    dsimp only
    split
    · exact ⟨_,rfl,herror _⟩
    split
    · exact ⟨_,rfl,herror _⟩
    · obtain ⟨h,heq,hbounds⟩:=readHeaderFields_eq d
        ((((d.drop 0).take 6).getD 4 0) == 2) ((((d.drop 0).take 6).getD 5 0) == 1)
      rw [heq,pure_bind]
      refine ⟨_,rfl,?_⟩
      intro h' hok
      cases hok
      exact hbounds

/-- The entries from number `i` on that lie in the file, at most `count`. -/
def entriesIn {α : Type} (d : Bytes) (off entsize minimum : ℕ) (entryAt : ℕ→α) : ℕ → ℕ → List α
  | 0, _ => []
  | count+1, i =>
    if off+i*entsize+minimum > d.length then []
    else entryAt (off+i*entsize) :: entriesIn d off entsize minimum entryAt count (i+1)

def ExtentFits (e : Option (ℕ×ℕ)) : Prop := ∀ x, e = some x → x.1+x.2<2^64

def endAfter (fileEnd : ℕ) : Option (ℕ×ℕ) → ℕ
  | some (off,size) => max fileEnd (off+size)
  | none => fileEnd

theorem laterEnd_fits (fileEnd:ℕ) (e:Option (ℕ×ℕ)) :
    (laterEnd fileEnd e).fits=true ↔ ExtentFits e:=by
  cases e with
  | none=>simp [laterEnd,ExtentFits]
  | some x=>
    obtain ⟨off,size⟩:=x
    rw [laterEnd,bind_fits,sum_fits]
    simp [ExtentFits]

theorem laterEnd_eq {fileEnd:ℕ} {e:Option (ℕ×ℕ)} (h:ExtentFits e) :
    laterEnd fileEnd e=pure (endAfter fileEnd e):=by
  cases e with
  | none=>rfl
  | some x=>
    obtain ⟨off,size⟩:=x
    rw [laterEnd,sum_eq (h _ rfl),pure_bind]
    rfl

variable {entsize minimum : ℕ}

theorem scanTable_fits {α:Type} {read:ℕ→Scan α} {entryAt:ℕ→α}
    {extent:α → Option (ℕ×ℕ)} (hd:d.length<2^63) (hentsize:entsize<2^16)
    (hminimum:minimum<2^16) (hread:∀o,o+minimum<2^64 → read o=pure (entryAt o))
    (count i fileEnd:ℕ) (hfirst:count≠0 → off+i*entsize+minimum<2^64) :
    ((scanTable d off entsize minimum read extent count i fileEnd).fits=true ↔
      ∀s∈entriesIn d off entsize minimum entryAt count i,ExtentFits (extent s)) ∧
    ((∀s∈entriesIn d off entsize minimum entryAt count i,ExtentFits (extent s)) →
      scanTable d off entsize minimum read extent count i fileEnd =
        pure (entriesIn d off entsize minimum entryAt count i,
          (entriesIn d off entsize minimum entryAt count i).foldl
            (fun m s=>endAfter m (extent s)) fileEnd)):=by
  induction count generalizing i fileEnd with
  | zero=>exact ⟨by simp [scanTable,entriesIn],fun _=>rfl⟩
  | succ count ih=>
    have hsum:=hfirst (by omega)
    rw [scanTable,entriesIn,sum_eq (by omega),pure_bind,sum_eq (by omega),pure_bind]
    split
    · exact ⟨by simp,fun _=>rfl⟩
    rename_i hinside
    have hnext : off+(i+1)*entsize+minimum<2^64:=by
      rw [Nat.add_mul]
      omega
    rw [hread _ hsum,pure_bind]
    constructor
    · rw [bind_fits,laterEnd_fits,forall_mem_cons]
      apply and_congr_right
      intro hextent
      rw [laterEnd_eq hextent,pure_value,bind_fits,(ih (i+1) _ fun _=>hnext).1]
      simp
    · intro hall
      rw [forall_mem_cons] at hall
      rw [laterEnd_eq hall.1,pure_bind,(ih (i+1) _ fun _=>hnext).2 hall.2,pure_bind]
      rfl

/-- The sum of the first entry is made when there is an entry at all. -/
theorem first_of_fits {α:Type} {read:ℕ→Scan α} {extent:α → Option (ℕ×ℕ)}
    {count fileEnd:ℕ} (hoff:off<2^64)
    (h:(scanTable d off entsize minimum read extent count 0 fileEnd).fits=true)
    (hcount:count≠0) : off+minimum<2^64:=by
  cases count with
  | zero=>exact absurd rfl hcount
  | succ count=>
    rw [scanTable,Nat.zero_mul,sum_eq (by omega),pure_bind,bind_fits,sum_fits] at h
    exact h.1

/-- The fields of a program header. -/
def segmentAt (h : ElfHeader) (d : Bytes) (o : ℕ) : ElfSegment :=
  let le := h.littleEndian
  let w := if h.elf64 then 8 else 4
  let offset := fieldAt d le (o + if h.elf64 then 8 else 4) w
  let fileSize := fieldAt d le (o + if h.elf64 then 32 else 16) w
  { type:=fieldAt d le (o+0) 4
    flags:=fieldAt d le (o + if h.elf64 then 4 else 24) 4,offset
    address:=fieldAt d le (o + if h.elf64 then 16 else 8) w,fileSize
    memorySize:=fieldAt d le (o + if h.elf64 then 40 else 20) w
    align:=fieldAt d le (o + if h.elf64 then 48 else 28) w,usedSize:=usedAt d offset fileSize }

theorem readSegment_eq (h:ElfHeader) (ho:o+h.minPhentsize<2^64) :
    readSegment h d o=pure (segmentAt h d o):=by
  unfold readSegment segmentAt
  unfold ElfHeader.minPhentsize at ho
  cases helf : h.elf64 with
  | true=>
    simp only [helf,if_true] at ho ⊢
    repeat rw [field_eq _ (by omega),pure_bind]
    rw [usedSize_eq,pure_bind]
  | false=>
    simp only [helf,Bool.false_eq_true,if_false] at ho ⊢
    repeat rw [field_eq _ (by omega),pure_bind]
    rw [usedSize_eq,pure_bind]

def sectionAt (h : ElfHeader) (d : Bytes) (o : ℕ) : RawSec :=
  let le := h.littleEndian
  let w := if h.elf64 then 8 else 4
  { name:=fieldAt d le (o+0) 4,type:=fieldAt d le (o+4) 4,flags:=fieldAt d le (o+8) w
    addr:=fieldAt d le (o + if h.elf64 then 16 else 12) w
    off:=fieldAt d le (o + if h.elf64 then 24 else 16) w
    size:=fieldAt d le (o + if h.elf64 then 32 else 20) w
    link:=fieldAt d le (o + if h.elf64 then 40 else 24) 4
    entsize:=fieldAt d le (o + if h.elf64 then 56 else 36) w }

theorem readRawSec_eq (h:ElfHeader) (ho:o+h.minShentsize<2^64) :
    readRawSec h d o=pure (sectionAt h d o):=by
  unfold readRawSec sectionAt
  unfold ElfHeader.minShentsize at ho
  cases helf : h.elf64 with
  | true=>
    simp only [helf,if_true] at ho ⊢
    repeat rw [field_eq _ (by omega),pure_bind]
  | false=>
    simp only [helf,Bool.false_eq_true,if_false] at ho ⊢
    repeat rw [field_eq _ (by omega),pure_bind]

/-- The program headers that lie in the file. -/
def segmentsIn (h : ElfHeader) (d : Bytes) : List ElfSegment :=
  entriesIn d h.phoff h.phentsize h.minPhentsize (segmentAt h d)
    (tableCount h.phnum h.phentsize h.minPhentsize) 0

def sectionsIn (h : ElfHeader) (d : Bytes) : List RawSec :=
  entriesIn d h.shoff h.shentsize h.minShentsize (sectionAt h d)
    (tableCount h.shnum h.shentsize h.minShentsize) 0

theorem mem_entriesIn {α:Type} {entryAt:ℕ→α} {count i:ℕ} {s:α}
    (h:s∈entriesIn d off entsize minimum entryAt count i) : ∃o,s=entryAt o:=by
  induction count generalizing i with
  | zero=>cases h
  | succ count ih=>
    rw [entriesIn] at h
    split at h
    · cases h
    · rcases mem_cons.mp h with rfl | h
      · exact ⟨_,rfl⟩
      · exact ih h

/-- What the fields of a section are below. -/
structure SectionBounds (rs : RawSec) : Prop where
  name : rs.name<2^32
  entsize : rs.entsize<2^64

variable {rs : RawSec}

theorem bounds_of_mem_sectionsIn {h:ElfHeader} (hrs:rs∈sectionsIn h d) : SectionBounds rs:=by
  obtain ⟨o,rfl⟩:=mem_entriesIn hrs
  refine ⟨fieldAt_lt _ _ _ 4,?_⟩
  unfold sectionAt
  dsimp only
  cases h.elf64 with
  | true=>exact fieldAt_lt _ _ _ 8
  | false=>exact Nat.lt_trans (fieldAt_lt _ _ _ 4) (by decide)

/-- Where an address lies in the file, by the first segment that has it. -/
def mapped (d : Bytes) (va : ℕ) : List ElfSegment → Option ℕ
  | [] => none
  | s::rest =>
    if s.type = 1 ∧ s.address ≤ va ∧ va-s.address < s.fileSize ∧
        s.offset + (va-s.address) < d.length then some (s.offset+(va-s.address))
    else mapped d va rest

def SegmentsFit (segments : List ElfSegment) : Prop :=
  ∀ s∈segments, s.offset+s.fileSize<2^64

variable {segments : List ElfSegment}

theorem vaddrToFile_eq (va:ℕ) (h:SegmentsFit segments) :
    vaddrToFile d va segments=pure (mapped d va segments):=by
  induction segments with
  | nil=>rfl
  | cons s rest ih=>
    have hs:=h s mem_cons_self
    have hrest:=ih fun x hx=>h x (mem_cons_of_mem _ hx)
    rw [vaddrToFile,mapped]
    split
    · rw [if_neg (by omega)]
      exact hrest
    dsimp only
    split
    · rw [sum_eq (by omega),pure_bind]
      split
      · rw [if_pos (by omega)]
      · rw [if_neg (by omega)]
        exact hrest
    · rw [if_neg (by omega)]
      exact hrest

/-- The segment that contains the address, and the offset inside it. -/
structure InSegment (d : Bytes) (segments : List ElfSegment) (va off size : ℕ) : Prop where
  file : off+size≤d.length
  load : ∃ s∈segments, s.type=1 ∧ s.address≤va ∧ va-s.address<s.fileSize ∧
    off = s.offset+(va-s.address) ∧ off+size ≤ s.offset+s.fileSize

theorem mapped_inSegment {va:ℕ} (h:mapped d va segments=some off) :
    InSegment d segments va off 1:=by
  induction segments with
  | nil=>cases h
  | cons s rest ih=>
    rw [mapped] at h
    split at h
    · rename_i hs
      cases h
      exact ⟨by omega,s,mem_cons_self,hs.1,hs.2.1,hs.2.2.1,rfl,by omega⟩
    · obtain ⟨hfile,s',hs',hload⟩:=ih h
      exact ⟨hfile,s',mem_cons_of_mem _ hs',hload⟩

theorem vaddrFileExtent_inSegment {va:ℕ} (h:SegmentsFit segments) :
    (vaddrFileExtent d va segments).fits=true ∧ ∀r,(vaddrFileExtent d va segments).value=some r →
        InSegment d segments va r.1 r.2:=by
  induction segments with
  | nil=>exact ⟨rfl,fun r hr=>by cases hr⟩
  | cons s rest ih=>
    have hs:=h s mem_cons_self
    obtain ⟨hfits,hvalue⟩:=ih fun x hx=>h x (mem_cons_of_mem _ hx)
    have hrest : (vaddrFileExtent d va rest).fits=true ∧
        ∀r,(vaddrFileExtent d va rest).value=some r →
          InSegment d (s::rest) va r.1 r.2:=by
      refine ⟨hfits,?_⟩
      intro r hr
      obtain ⟨hfile,s',hs',hload⟩:=hvalue r hr
      exact ⟨hfile,s',mem_cons_of_mem _ hs',hload⟩
    rw [vaddrFileExtent]
    split
    · exact hrest
    dsimp only
    split
    · rw [sum_eq (by omega),pure_bind]
      split
      · rename_i hskip hdelta hfile
        refine ⟨rfl,?_⟩
        intro r hr
        cases hr
        exact ⟨by dsimp only;omega,s,mem_cons_self,by omega,by omega,hdelta,rfl,
          by dsimp only;omega⟩
      · exact hrest
    · exact hrest

theorem pointersFrom_fits {n p:ℕ} (le:Bool) (count:ℕ) (hd:d.length<2^63)
    (hoff:off+n≤d.length) (hw:w≤8) (hp:p≤n) :
    (pointersFrom d off n w le count p).fits=true:=by
  induction count generalizing p with
  | zero=>rfl
  | succ count ih=>
    rw [pointersFrom,sum_eq (by omega),pure_bind]
    split
    · rfl
    · rw [sum_eq (by omega),pure_bind,rd_eq le (by omega),pure_bind,if_neg (by omega)]
      exact (bind_fits _ _).mpr ⟨ih (by omega),rfl⟩

theorem readSection_fits (h:ElfHeader) (strings:ℕ×ℕ) (hd:d.length<2^63) (hname:rs.name<2^32) :
    (readSection h d strings rs).fits=true:=by
  have hsectionName : (sectionName d strings rs).fits=true:=by
    unfold sectionName
    split
    · rw [sum_eq (by omega),pure_bind,zstr_eq]
      rfl
    · rfl
  have hused : (sectionUsed d rs).fits=true:=by
    unfold sectionUsed
    split
    · rw [usedSize_eq]
      rfl
    · rfl
  have harray : ∀name,(sectionArray h d name rs).fits=true:=by
    intro name
    unfold sectionArray pointerEntries
    split
    · rw [bind_fits]
      refine ⟨?_,rfl⟩
      split
      · rfl
      · apply pointersFrom_fits _ _ hd
        · omega
        · split <;> omega
        · omega
    · rfl
  unfold readSection
  rw [bind_fits,bind_fits,bind_fits]
  exact ⟨hsectionName,hused,harray _,rfl⟩

theorem readSections_fits (h:ElfHeader) (strings:ℕ×ℕ) {raw:List RawSec}
    (hd:d.length<2^63) (hraw:∀rs∈raw,SectionBounds rs) :
    (readSections h d strings raw).fits=true:=by
  induction raw with
  | nil=>rfl
  | cons rs rest ih=>
    rw [readSections,bind_fits,bind_fits]
    exact ⟨readSection_fits h strings hd (hraw rs mem_cons_self).name,
      ih fun x hx=>hraw x (mem_cons_of_mem _ hx),rfl⟩

theorem interpreterOf_fits (segments:List ElfSegment) (found:Bytes) :
    (interpreterOf d segments found).fits=true:=by
  induction segments generalizing found with
  | nil=>rfl
  | cons s rest ih=>
    rw [interpreterOf]
    split
    · rw [zstr_eq,pure_bind]
      exact ih _
    · exact ih found

/-- The tags and values of a table in the file. -/
def tagsIn (h : ElfHeader) (d : Bytes) (off n entsz : ℕ) : ℕ → ℕ → ℕ → List (ℕ×ℕ)
  | 0, _, _ => []
  | count+1, room, p =>
    if p+entsz > n then []
    else
      let w := if h.elf64 then 8 else 4
      let tag := fieldAt d h.littleEndian (off+p+0) w
      let val := fieldAt d h.littleEndian (off+p+w) w
      if tag = 0 ∨ room = 0 then []
      else (tag,val) :: tagsIn h d off n entsz count (room-1) (p+entsz)

theorem dynamicTags_eq (h:ElfHeader) {n entsz:ℕ} (hd:d.length<2^63)
    (hoff:off+n≤d.length) (hentsz:entsz<2^64) (count room p:ℕ)
    (hp:p=0 ∨ (p≤n ∧ entsz≤n)) :
    dynamicTags h d off n entsz count room p=pure (tagsIn h d off n entsz count room p):=by
  induction count generalizing room p with
  | zero=>rfl
  | succ count ih=>
    have hw : (if h.elf64 = true then 8 else 4)≤8:=by split <;> omega
    rw [dynamicTags,tagsIn,sum_eq (by omega),pure_bind]
    dsimp only
    generalize (if h.elf64 = true then 8 else 4) = w at hw ⊢
    split
    · rfl
    · rw [sum_eq (by omega),pure_bind]
      rw [field_eq _ (by omega),pure_bind,field_eq _ (by omega),pure_bind]
      split
      · rfl
      · rw [ih _ _ (.inr (by omega)),pure_bind]

def tagsOfSection (h : ElfHeader) (d : Bytes) (rs : RawSec) : List (ℕ×ℕ) :=
  let entsz := if rs.entsize ≠ 0 then rs.entsize else defaultEntsize h
  let n := min rs.size (d.length-rs.off)
  tagsIn h d rs.off n entsz (n/entsz+1) (n+1) 0

def tagsOfSegment (h : ElfHeader) (d : Bytes) (s : ElfSegment) : List (ℕ×ℕ) :=
  let entsz := defaultEntsize h
  let n := min s.fileSize (d.length-s.offset)
  tagsIn h d s.offset n entsz (n/entsz+1) 65536 0

theorem defaultEntsize_le (h:ElfHeader) : defaultEntsize h≤16:=by
  unfold defaultEntsize
  split <;> omega

theorem sectionTags_eq (h:ElfHeader) (hd:d.length<2^63) (hoff:rs.off<d.length)
    (hentsize:rs.entsize<2^64) :
    sectionTags h d rs=pure (tagsOfSection h d rs):=by
  have hdefault:=defaultEntsize_le h
  apply dynamicTags_eq h hd
  · omega
  · split <;> omega
  · exact .inl rfl

theorem segmentTags_eq (h:ElfHeader) {s:ElfSegment} (hd:d.length<2^63)
    (hoff:s.offset<d.length) : segmentTags h d s=pure (tagsOfSegment h d s):=by
  have hdefault:=defaultEntsize_le h
  apply dynamicTags_eq h hd
  · omega
  · omega
  · exact .inl rfl

def NamesFit (base : ℕ) (admits : ℕ→Bool) (tags : List (ℕ×ℕ)) : Prop :=
  ∀ t∈tags, t.1=1 → admits t.2 = true → base+t.2<2^64

theorem neededFrom_fits (base:ℕ) (admits:ℕ→Bool) (tags:List (ℕ×ℕ)) (needed:List Bytes) :
    (neededFrom d base admits tags needed).fits=true ↔ NamesFit base admits tags:=by
  induction tags generalizing needed with
  | nil=>simp [neededFrom,NamesFit]
  | cons t rest ih=>
    obtain ⟨tag,val⟩:=t
    rw [neededFrom,NamesFit,forall_mem_cons]
    split
    · rename_i hadmits
      rw [bind_fits,sum_fits,zstr_eq,pure_bind,ih]
      dsimp only
      exact and_congr_left fun _=>⟨fun hsum _ _=>hsum,fun hsum=>hsum hadmits.1 hadmits.2⟩
    · rename_i hadmits
      rw [ih]
      dsimp only
      exact ⟨fun hrest=>⟨fun htag hval=>absurd ⟨htag,hval⟩ hadmits,hrest⟩,fun hall=>hall.2⟩

def SectionNamesFit (h : ElfHeader) (d : Bytes) (raw : List RawSec) (rs : RawSec) : Prop :=
  rs.type = 6 → rs.off<d.length →
    NamesFit (linkedStrings raw rs).1
      (fun val => (linkedStrings raw rs).1<d.length && val<(linkedStrings raw rs).2)
      (tagsOfSection h d rs)

theorem neededOfSections_fits (h:ElfHeader) (raw:List RawSec) {l:List RawSec}
    (needed:List Bytes) (hd:d.length<2^63) (hl:∀rs∈l,SectionBounds rs) :
    (neededOfSections h d raw l needed).fits=true ↔ ∀rs∈l,SectionNamesFit h d raw rs:=by
  induction l generalizing needed with
  | nil=>simp [neededOfSections]
  | cons rs rest ih=>
    have hrs:=hl rs mem_cons_self
    have hrest:=fun needed=>ih needed fun x hx=>hl x (mem_cons_of_mem _ hx)
    rw [neededOfSections,forall_mem_cons]
    split
    · rename_i hskip
      rw [hrest]
      refine ⟨fun hall=>⟨?_,hall⟩,fun hall=>hall.2⟩
      intro htype hoff
      omega
    · rename_i htake
      rw [sectionTags_eq h hd (by omega) hrs.entsize,pure_bind]
      dsimp only
      rw [bind_fits,neededFrom_fits,hrest]
      exact and_congr_left fun _=>
        ⟨fun hnames _ _=>hnames,fun hnames=>hnames (by omega) (by omega)⟩

def SegmentNamesFit (h : ElfHeader) (d : Bytes) (segments : List ElfSegment) (s : ElfSegment) :
    Prop :=
  s.type = 2 → s.offset < d.length →
    ∀ base, mapped d (lastTag 5 (tagsOfSegment h d s)) segments = some base →
      NamesFit base (admitsString (tagsOfSegment h d s)) (tagsOfSegment h d s)

theorem neededOfSegments_fits (h:ElfHeader) (l:List ElfSegment) (needed:List Bytes)
    (hd:d.length<2^63) (hsegments:SegmentsFit segments) :
    (neededOfSegments h d segments l needed).fits=true ↔
      ∀s∈l,SegmentNamesFit h d segments s:=by
  induction l generalizing needed with
  | nil=>simp [neededOfSegments]
  | cons s rest ih=>
    rw [neededOfSegments,forall_mem_cons]
    split
    · rename_i hskip
      rw [ih]
      refine ⟨fun hall=>⟨?_,hall⟩,fun hall=>hall.2⟩
      intro htype hoff
      omega
    · rename_i htake
      rw [segmentTags_eq h hd (by omega),pure_bind,vaddrToFile_eq _ hsegments,pure_bind]
      cases hbase : mapped d (lastTag 5 (tagsOfSegment h d s)) segments with
      | none=>
        dsimp only
        rw [ih]
        refine ⟨fun hall=>⟨?_,hall⟩,fun hall=>hall.2⟩
        intro _ _ base hsome
        rw [hbase] at hsome
        cases hsome
      | some base=>
        dsimp only
        rw [bind_fits,neededFrom_fits,ih]
        refine and_congr_left fun _=>⟨?_,?_⟩
        · intro hnames _ _ base' hsome
          rw [hbase] at hsome
          cases hsome
          exact hnames
        · intro hnames
          exact hnames (by omega) (by omega) base hbase

/-- The condition on a file: a header table that is used starts where its first entry does not
wrap, no segment and no section with bytes in the file ends behind the last address, and no name
of a needed library either. -/
structure FieldsFit (h : ElfHeader) (d : Bytes) : Prop where
  segmentTable : tableCount h.phnum h.phentsize h.minPhentsize ≠ 0 →
    h.phoff + h.minPhentsize < 2^64
  segments : SegmentsFit (segmentsIn h d)
  sectionTable : tableCount h.shnum h.shentsize h.minShentsize ≠ 0 →
    h.shoff + h.minShentsize < 2^64
  sections : ∀ rs ∈ sectionsIn h d, rs.type≠8 → rs.off+rs.size<2^64
  sectionNames : ∀ rs ∈ sectionsIn h d, SectionNamesFit h d (sectionsIn h d) rs
  segmentNames : ∀ s ∈ segmentsIn h d, SegmentNamesFit h d (segmentsIn h d) s

def describedEnd (h : ElfHeader) (d : Bytes) : ℕ :=
  (sectionsIn h d).foldl (fun m rs => endAfter m rs.extent)
    ((segmentsIn h d).foldl (fun m s => endAfter m (some (s.offset,s.fileSize))) 0)

theorem extentFits_rawSec : ExtentFits rs.extent ↔ (rs.type≠8 → rs.off+rs.size<2^64):=by
  unfold ExtentFits RawSec.extent
  split <;> simp_all

theorem scanSegments_fits (h:ElfHeader) (hb:HeaderBounds h) (hd:d.length<2^63)
    (hfirst:tableCount h.phnum h.phentsize h.minPhentsize≠0 → h.phoff + h.minPhentsize<2^64) :
    ((scanSegments h d).fits=true ↔ SegmentsFit (segmentsIn h d)) ∧
    (SegmentsFit (segmentsIn h d) → scanSegments h d = pure (segmentsIn h d,
      (segmentsIn h d).foldl (fun m s=>endAfter m (some (s.offset,s.fileSize))) 0)):=by
  have hmin : h.minPhentsize<2^16:=by
    unfold ElfHeader.minPhentsize
    split <;> omega
  have htable:=@scanTable_fits d h.phoff h.phentsize h.minPhentsize _ (readSegment h d)
    (segmentAt h d) (fun s=>some (s.offset,s.fileSize)) hd hb.phentsize hmin
    (fun o ho=>readSegment_eq h ho) (tableCount h.phnum h.phentsize h.minPhentsize) 0 0
    (by simpa using hfirst)
  have hextent : ∀s : ElfSegment,ExtentFits (some (s.offset,s.fileSize)) ↔
      s.offset + s.fileSize<2^64:=by
    intro s
    simp [ExtentFits]
  simp only [hextent] at htable
  exact htable

theorem scanSections_fits (h:ElfHeader) (hb:HeaderBounds h) (hd:d.length<2^63)
    (fileEnd:ℕ) (hfirst:tableCount h.shnum h.shentsize h.minShentsize≠0 →
      h.shoff + h.minShentsize<2^64) :
    ((scanSections h d fileEnd).fits=true ↔ ∀rs∈sectionsIn h d,rs.type≠8 → rs.off+rs.size<2^64) ∧
    ((∀rs∈sectionsIn h d,rs.type≠8 → rs.off+rs.size<2^64) →
      scanSections h d fileEnd = pure (sectionsIn h d,
        (sectionsIn h d).foldl (fun m rs=>endAfter m rs.extent) fileEnd)):=by
  have hmin : h.minShentsize<2^16:=by
    unfold ElfHeader.minShentsize
    split <;> omega
  have htable:=@scanTable_fits d h.shoff h.shentsize h.minShentsize _ (readRawSec h d)
    (sectionAt h d) RawSec.extent hd hb.shentsize hmin
    (fun o ho=>readRawSec_eq h ho) (tableCount h.shnum h.shentsize h.minShentsize) 0 fileEnd
    (by simpa using hfirst)
  simp only [extentFits_rawSec] at htable
  exact htable

end

end AutoRefirst.Elf
