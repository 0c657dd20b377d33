import AutoRefirst.AndroidReads
import AutoRefirst.AndroidResources

/-!
# What the resource-table parser reads

The one sum that can be cut is the one with the size of a configuration. Where it is not, the
parser stays inside its input as well.
-/

namespace AutoRefirst.Apk
open CheckedRun

variable {A : Sum Site→Prop} {d : Bytes}

namespace ArscParser

def declaredConfig (d : Bytes) (off : ℕ) : ℕ := littleEndian ((d.drop (off+20)).take 4)

/-- Where a configuration size is added up, the sum is not cut. -/
def ConfigsFit (A : Sum Site→Prop) (d : Bytes) : Prop :=
  ∀ off, A ⟨.config off,20,declaredConfig d off,32⟩ → 20 + declaredConfig d off < 2^32

theorem u16_keeps (off:ℕ) : Keeps A d (u16 d off) fun v=>
      off + 2 ≤ d.length ∧ v=littleEndian ((d.drop off).take 2) ∧ v<2^16:=
  (numberAt_keeps doc off 2 "uint16").mono fun _ h=>⟨h.1,h.2,h.2▸pair_lt off⟩

theorem u32_keeps (off:ℕ) :
    Keeps A d (u32 d off) fun v=>off+4≤d.length ∧ v=littleEndian ((d.drop off).take 4):=
  numberAt_keeps doc off 4 "uint32"

variable {p stop : ℕ}

theorem stringUtf8_keeps (hstop:stop≤d.length) :
    Keeps A d (stringUtf8 d p stop) fun _=>True:=by
  apply (len8_keeps hstop).bind
  intro x hx
  apply (AxmlParser.lengthAt_keeps hx _).bind
  intro _ _
  apply (len8_keeps hstop).bind
  intro y hy
  apply (AxmlParser.lengthAt_keeps hy _).bind
  intro size hp
  apply Keeps.check
  intro hfits
  push Not at hfits
  apply (Keeps.read (by omega)).bind
  intro text _
  apply Keeps.check
  intro _
  apply (byteAt_keeps (by omega)).bind
  intro last _
  apply Keeps.check
  intro _
  exact Keeps.pure trivial

theorem stringUtf16_keeps (hstop:stop≤d.length) :
    Keeps A d (stringUtf16 d p stop) fun _=>True:=by
  apply (len16_keeps hstop).bind
  intro x hx
  apply (AxmlParser.lengthAt_keeps hx _).bind
  intro units hp
  apply Keeps.check
  intro hfits
  push Not at hfits
  apply (u16_keeps _).bind
  intro last _
  apply Keeps.check
  intro _
  apply (Keeps.read (by omega)).bind
  intro text _
  cases utf16leToUtf8 text with
  | none=>exact Keeps.fail _ _
  | some s=>exact Keeps.pure trivial

def PoolEnds (stop : ℕ) (h : Option AxmlParser.PoolHeader) : Prop :=
  ∀ x, h = some x → x.stringEnd ≤ stop

theorem poolHeader_keeps (off hs size:ℕ) (label:String) :
    Keeps A d (poolHeader d off hs size label) (PoolEnds (off+size)):=by
  apply (u32_keeps _).bind
  intro count _
  apply (u32_keeps _).bind
  intro styles _
  apply (u32_keeps _).bind
  intro flags _
  apply (u32_keeps _).bind
  intro stringsStart _
  apply (u32_keeps _).bind
  intro stylesStart _
  apply Keeps.check
  intro hcounts
  push Not at hcounts
  -- two counts of at most a million are not cut to 32 bits
  apply (Keeps.sum fun _=>by omega).bind
  intro entries _
  apply Keeps.check
  intro _
  apply Keeps.ite
  · intro _
    apply Keeps.check
    intro _
    exact Keeps.pure nofun
  · intro _
    apply Keeps.check
    intro _
    apply Keeps.check
    intro hstyles
    apply Keeps.pure
    rintro x hx
    cases hx
    dsimp only
    split <;> omega

theorem poolString_keeps (off hs size:ℕ) {h:AxmlParser.PoolHeader}
    (hstop:h.stringEnd≤d.length) (i:ℕ) :
    Keeps A d (poolString d off hs size h i) fun _=>True:=by
  apply (u32_keeps _).bind
  intro rel _
  apply Keeps.check
  intro _
  apply Keeps.check
  intro _
  exact Keeps.ite (fun _=>stringUtf8_keeps hstop) fun _=>stringUtf16_keeps hstop

variable {off : ℕ}

theorem pool_keeps {limit:ℕ} (label:String) (hlimit:limit≤d.length) :
    Keeps A d (pool d off limit label) fun _=>True:=by
  apply Keeps.check
  intro hoff
  apply (u16_keeps _).bind
  intro type _
  apply Keeps.check
  intro _
  apply (u16_keeps _).bind
  intro hs _
  apply (u32_keeps _).bind
  intro size _
  apply Keeps.check
  intro hgeometry
  apply (poolHeader_keeps off hs size label).bind
  intro h hends
  cases h with
  | none=>exact Keeps.pure trivial
  | some h=>
    have hend : h.stringEnd≤off+size:=hends h rfl
    apply Keeps.each (P:=fun _=>True) _ trivial
    intro out _ i _
    apply (poolString_keeps off hs size (by omega) i).bind
    intro s _
    exact Keeps.pure trivial

theorem unitsAt_keeps (off n units:ℕ) : Keeps A d (unitsAt d off n units) fun k=>k≤units+n:=by
  induction n generalizing units with
  | zero=>exact Keeps.pure (Nat.le_refl _)
  | succ n ih=>
    apply (u16_keeps _).bind
    intro u _
    apply Keeps.ite
    · intro _
      exact (ih (units+1)).mono fun k hk=>by omega
    · exact fun _=>Keeps.pure (by omega)

theorem packageName_keeps (off:ℕ) : Keeps A d (packageName d off) fun _=>True:=by
  apply (need_keeps _ _ _ _).bind
  intro _ hneed
  apply (unitsAt_keeps off 128 0).bind
  intro units hunits
  apply Keeps.check
  intro _
  apply (Keeps.read (by omega)).bind
  intro b _
  cases utf16leToUtf8 b with
  | none=>exact Keeps.fail _ _
  | some text=>
    apply Keeps.check
    intro _
    exact Keeps.pure trivial

theorem zerosAt_keeps {n:ℕ} (h:p+n≤d.length) : Keeps A d (zerosAt d n p) fun _=>True:=by
  induction n generalizing p with
  | zero=>exact Keeps.pure trivial
  | succ n ih=>
    apply (Keeps.read (by omega)).bind
    intro b _
    exact Keeps.ite (fun _=>ih (by omega)) fun _=>Keeps.pure trivial

variable {size : ℕ}

theorem defaultConfig_keeps (h:off+size≤d.length) :
    Keeps A d (defaultConfig d off size) fun _=>True:=
  Keeps.ite (fun _=>Keeps.pure trivial) fun _=>zerosAt_keeps (by omega)

variable (st : ArscState)

theorem validateValue_keeps (hstop:stop≤d.length) :
    Keeps A d (validateValue d st off stop) fun _=>True:=by
  apply Keeps.check
  intro hoff
  apply (u16_keeps _).bind
  intro size _
  apply Keeps.check
  intro _
  apply (byteAt_keeps (by omega)).bind
  intro res0 _
  apply Keeps.check
  intro _
  apply (byteAt_keeps (by omega)).bind
  intro type _
  apply (u32_keeps _).bind
  intro data _
  apply Keeps.check
  intro _
  exact Keeps.pure trivial

theorem storeEntry_keeps (c:EntryContext) (entry resid keyIndex:ℕ) (type:UInt8) (data:ℕ) :
    Keeps A d (storeEntry st c entry resid keyIndex type data) fun _=>True:=by
  apply Keeps.check
  intro _
  apply Keeps.ite
  · exact fun _=>Keeps.pure trivial
  · intro _
    apply Keeps.check
    intro _
    exact Keeps.pure trivial

theorem compactEntry_keeps (c:EntryContext) (entry resid first flags:ℕ) :
    Keeps A d (compactEntry d st c entry resid first flags) fun _=>True:=by
  apply Keeps.check
  intro _
  apply (u32_keeps _).bind
  intro data _
  apply Keeps.check
  intro _
  exact storeEntry_keeps _ _ _ _ _ _ _

variable {c : EntryContext}

theorem complexEntry_keeps (entry size:ℕ) (hstop:c.chunkEnd≤d.length) :
    Keeps A d (complexEntry d st c entry size) fun _=>True:=by
  apply Keeps.check
  intro _
  apply (u32_keeps _).bind
  intro count _
  apply Keeps.check
  intro _
  apply (Keeps.each (P:=fun _=>True) (fun _ _ i _=>?_) trivial).bind
  · intro _ _
    exact Keeps.pure trivial
  · apply (u32_keeps _).bind
    intro _ _
    apply (validateValue_keeps st hstop).bind
    intro _ _
    exact Keeps.pure trivial

theorem parseEntry_keeps (entry resid:ℕ) (hstop:c.chunkEnd≤d.length) :
    Keeps A d (parseEntry d st c entry resid) fun _=>True:=by
  apply Keeps.check
  intro _
  apply (u16_keeps _).bind
  intro first _
  apply (u16_keeps _).bind
  intro flags _
  apply Keeps.ite
  · exact fun _=>compactEntry_keeps _ _ _ _ _ _
  intro _
  apply Keeps.check
  intro _
  apply (u32_keeps _).bind
  intro keyIndex _
  apply Keeps.ite
  · exact fun _=>complexEntry_keeps st entry first hstop
  intro _
  apply (validateValue_keeps st hstop).bind
  intro v _
  exact storeEntry_keeps _ _ _ _ _ _ _

variable (t : TypeChunk)

theorem sparseEntry_keeps (s:Option ℕ×ArscState) (i:ℕ)
    (hstop:c.chunkEnd≤d.length) : Keeps A d (sparseEntry d c t s i) fun _=>True:=by
  apply (u16_keeps _).bind
  intro entryIndex _
  apply (u16_keeps _).bind
  intro offset16 _
  apply Keeps.check
  intro _
  apply Keeps.check
  intro _
  apply Keeps.check
  intro _
  apply Keeps.check
  intro _
  apply (parseEntry_keeps s.2 _ _ hstop).bind
  intro st _
  exact Keeps.pure trivial

theorem denseOffset_keeps (i:ℕ) : Keeps A d (denseOffset d t i) fun _=>True:=by
  apply Keeps.ite
  · intro _
    apply (u16_keeps _).bind
    intro x _
    exact Keeps.pure trivial
  · intro _
    apply (u32_keeps _).bind
    intro x _
    exact Keeps.pure trivial

theorem denseEntry_keeps (st:ArscState) (i:ℕ) (hstop:c.chunkEnd≤d.length) :
    Keeps A d (denseEntry d c t st i) fun _=>True:=by
  apply (denseOffset_keeps t i).bind
  intro o _
  cases o with
  | none=>exact Keeps.pure trivial
  | some entryOffset=>
    apply Keeps.check
    intro _
    exact parseEntry_keeps st _ _ hstop

theorem typeEntries_keeps (st:ArscState) (hstop:c.chunkEnd≤d.length) :
    Keeps A d (typeEntries d c t st) fun _=>True:=by
  apply Keeps.ite
  · intro _
    apply (Keeps.each (P:=fun _=>True) (fun s _ i _=>sparseEntry_keeps t s i hstop)
      trivial).bind
    intro s _
    exact Keeps.pure trivial
  · exact fun _=>Keeps.each (fun st _ i _=>denseEntry_keeps t st i hstop) trivial

theorem typeHeader_keeps (hA:ConfigsFit A d) (x:PackageContext) (hoff:off+size≤d.length) :
    Keeps A d (typeHeader d x off size) fun _=>True:=by
  apply (u16_keeps _).bind
  intro headerSize _
  apply Keeps.check
  intro hheader
  apply (byteAt_keeps (by omega)).bind
  intro id _
  apply (byteAt_keeps (by omega)).bind
  intro flags _
  apply Keeps.check
  intro _
  apply (u16_keeps _).bind
  intro reserved _
  apply Keeps.check
  intro _
  apply (u32_keeps _).bind
  intro count _
  apply (u32_keeps _).bind
  intro entriesStart _
  apply (u32_keeps _).bind
  rintro configSize ⟨_,rfl⟩
  apply Keeps.check
  intro _
  apply (Keeps.sum (hA off)).bind
  rintro configEnd rfl
  apply (Keeps.failIf _ _ _).bind
  -- the sum is the whole one, so that the configuration is inside the header
  intro _ hconfig
  apply Keeps.check
  intro _
  apply Keeps.check
  intro _
  apply Keeps.check
  intro _
  split
  case h_1=>exact Keeps.fail _ _
  case h_2 specCount _=>
    apply Keeps.check
    intro _
    apply Keeps.check
    intro _
    apply (defaultConfig_keeps (by unfold declaredConfig at hconfig;omega)).bind
    intro isDefault _
    exact Keeps.pure trivial

theorem parseType_keeps (hA:ConfigsFit A d) (x:PackageContext) (st:ArscState)
    (hoff:off+size≤d.length) :
    Keeps A d (parseType d x st off size) fun _=>True:=by
  apply (typeHeader_keeps hA x hoff).bind
  intro t _
  apply Keeps.check
  intro _
  exact typeEntries_keeps t _ hoff

def chunkSize (d : Bytes) (p : ℕ) : ℕ := littleEndian ((d.drop (p+4)).take 4)

/-- From `p` on there are chunks that lie before `stop`, up to it. -/
inductive Children (d : Bytes) (stop : ℕ) : ℕ → Prop
  | done {p : ℕ} (h : stop≤p) : Children d stop p
  | child {p : ℕ} (hsize : 8 ≤ chunkSize d p) (hstop : p + chunkSize d p ≤ stop)
      (h : Children d stop (p + chunkSize d p)) : Children d stop p

theorem typeSpec_keeps (types:List Bytes) (specs:OrderedMap ℕ ℕ) {hs:ℕ}
    (hp:p+size≤d.length) :
    Keeps A d (typeSpec d types specs p hs size) fun _=>True:=by
  apply Keeps.check
  intro hheader
  apply (byteAt_keeps (by omega)).bind
  intro id _
  apply (byteAt_keeps (by omega)).bind
  intro res0 _
  apply Keeps.check
  intro _
  apply (u16_keeps _).bind
  intro res1 _
  apply Keeps.check
  intro _
  apply (u32_keeps _).bind
  intro entryCount _
  apply Keeps.check
  intro _
  apply Keeps.check
  intro _
  exact Keeps.pure trivial

theorem specTurn_keeps (types:List Bytes) {start:ℕ} (hstop:stop≤d.length)
    (s:ℕ×OrderedMap ℕ ℕ×ArscState) (hs:Children d stop s.1 → Children d stop start) :
    Keeps A d (specTurn d types stop s)
      (Turn (fun s=>Children d stop s.1 → Children d stop start) (fun s=>stop ≤ s.1)
        (fun s=>stop-s.1) s):=by
  apply Keeps.ite
  case hy=>exact fun h=>Keeps.pure (Nat.le_of_not_lt h)
  intro hlt
  apply Keeps.check
  intro _
  apply (u16_keeps _).bind
  intro type _
  apply (u16_keeps _).bind
  intro hsize _
  apply (u32_keeps _).bind
  rintro size ⟨_,rfl⟩
  apply Keeps.check
  intro hgeometry
  have hmin : 8 ≤ chunkSize d s.1:=by unfold chunkSize;omega
  have hfits : s.1 + chunkSize d s.1 ≤ stop:=by unfold chunkSize;omega
  have hnext : Children d stop (s.1 + chunkSize d s.1) → Children d stop start:=
    fun h=>hs (.child hmin hfits h)
  have hless : stop-(s.1 + chunkSize d s.1)<stop-s.1:=by omega
  apply Keeps.ite
  · intro _
    apply (typeSpec_keeps types _ (Nat.le_trans hfits hstop)).bind
    intro specs _
    exact Keeps.pure ⟨hnext,hless⟩
  · exact fun _=>Keeps.pure ⟨hnext,hless⟩

/-- The second walk makes no check; it goes over the same children. -/
theorem typeTurn_keeps (hA:ConfigsFit A d) (x:PackageContext) (hstop:stop≤d.length)
    (s:ℕ×ArscState) (hs:Children d stop s.1) :
    Keeps A d (typeTurn d x stop s)
      (Turn (fun s=>Children d stop s.1) (fun _=>True) (fun s=>stop-s.1) s):=by
  apply Keeps.ite
  case hy=>exact fun _=>Keeps.pure trivial
  intro hlt
  cases hs with
  | done h=>omega
  | child hmin hfits hnext=>
    apply (u16_keeps _).bind
    intro type _
    apply (u32_keeps _).bind
    rintro size ⟨_,rfl⟩
    have hless : stop-(s.1 + chunkSize d s.1)<stop-s.1:=by omega
    apply Keeps.ite
    · intro _
      apply (parseType_keeps hA x s.2 (Nat.le_trans hfits hstop)).bind
      intro st _
      exact Keeps.pure ⟨hnext,hless⟩
    · intro _
      exact Keeps.ite (fun _=>Keeps.pure ⟨hnext,hless⟩) fun _=>Keeps.pure ⟨hnext,hless⟩

theorem typeOffset_keeps (off hs:ℕ) : Keeps A d (typeOffset d off hs) fun _=>True:=
  Keeps.ite (fun _=>(u32_keeps _).mono fun _ _=>trivial) fun _=>Keeps.pure trivial

theorem packageHeader_keeps (off hs size:ℕ) :
    Keeps A d (packageHeader d off hs size) fun _=>hs ≤ size:=by
  apply Keeps.check
  intro hheader
  apply (u32_keeps _).bind
  intro packageId _
  apply Keeps.check
  intro _
  apply (packageName_keeps _).bind
  intro name _
  apply (u32_keeps _).bind
  intro typeStringsOff _
  apply (u32_keeps _).bind
  intro keyStringsOff _
  apply (typeOffset_keeps off hs).bind
  intro typeIdOffset _
  apply Keeps.check
  intro _
  exact Keeps.pure (by omega)

theorem parsePackage_keeps (hA:ConfigsFit A d) (st:ArscState) {hs:ℕ}
    (hoff:off+size≤d.length) : Keeps A d (parsePackage d st off hs size) fun _=>True:=by
  apply (packageHeader_keeps off hs size).bind
  rintro ⟨packageId,name,typeStringsOff,keyStringsOff,typeIdOffset⟩ hhs
  apply (pool_keeps "typeStrings" hoff).bind
  intro types _
  apply (pool_keeps "keyStrings" hoff).bind
  intro keys _
  apply (Keeps.turns _ (fun s hs=>specTurn_keeps types hoff s hs) (fun h=>h)
    (by dsimp only;omega)).bind
  rintro ⟨p,specs,st'⟩ ⟨hwalk,hend⟩
  have hchildren : Children d (off+size) (off+hs):=hwalk (.done hend)
  apply (Keeps.turns _ (fun s hs=>typeTurn_keeps hA _ hoff s hs) hchildren
    (by dsimp only;omega)).bind
  rintro ⟨p',st''⟩ _
  exact Keeps.pure trivial

theorem chunkTurn_keeps (hA:ConfigsFit A d) (s:ℕ×Bool×ArscState) : Keeps A d (chunkTurn d s)
      (Turn (fun _=>True) (fun _=>True) (fun s=>d.length-s.1) s):=by
  apply Keeps.ite
  case hy=>exact fun _=>Keeps.pure trivial
  intro hlt
  apply (need_keeps _ _ _ _).bind
  intro _ _
  apply (u16_keeps _).bind
  intro type _
  apply (u16_keeps _).bind
  intro hs _
  apply (u32_keeps _).bind
  intro size _
  apply Keeps.check
  intro hgeometry
  have hless : d.length-(s.1+size)<d.length-s.1:=by omega
  apply Keeps.ite
  · intro _
    apply Keeps.check
    intro _
    apply (pool_keeps "global" (Nat.le_refl _)).bind
    intro strings _
    exact Keeps.pure ⟨trivial,hless⟩
  intro _
  apply Keeps.ite
  · intro _
    apply Keeps.check
    intro _
    apply (parsePackage_keeps hA s.2.2 (by omega)).bind
    intro st _
    exact Keeps.pure ⟨trivial,hless⟩
  · exact fun _=>Keeps.fail _ _

theorem parse_keeps (hA:ConfigsFit A d) : Keeps A d (parse d) fun _=>True:=by
  apply (u16_keeps _).bind
  intro rootHs _
  apply Keeps.check
  intro _
  apply (u32_keeps _).bind
  intro rootSize _
  apply Keeps.check
  intro _
  apply (u32_keeps _).bind
  intro declared _
  apply Keeps.check
  intro _
  apply (Keeps.turns _ (fun s _=>chunkTurn_keeps hA s) trivial (by dsimp only;omega)).bind
  rintro ⟨p,globalSeen,st⟩ _
  apply Keeps.check
  intro _
  exact Keeps.pure trivial

theorem run_keeps (hA:ConfigsFit A d) : Keeps A d (run d) fun _=>True:=by
  apply Keeps.ite
  case hx=>exact fun _=>Keeps.pure trivial
  intro hd
  apply (Keeps.read (by omega)).bind
  intro b _
  apply Keeps.ite
  case hx=>exact fun _=>Keeps.pure trivial
  intro _
  exact (parse_keeps hA).caught _ _

/-- The parser comes to the check of the configuration size that the header of a type at `off`
declares. -/
def ComesTo (d : Bytes) (off : ℕ) : Prop :=
  ⟨.config off,20,declaredConfig d off,32⟩ ∈ (run d).sums

end ArscParser

/-- The manifest parser always stays inside, and the resource-table parser does exactly where no
header of a type that it comes to declares a configuration that large. -/
theorem android_parsers_stay_inside (d : Bytes) :
    (Stays d (AxmlParser.run d) ∧ Stays d (ArscParser.run d)) ↔
      ∀ off, ArscParser.ComesTo d off → ArscParser.declaredConfig d off < 2^32-20 := by
  have haxml : Stays d (AxmlParser.run d):=
    (AxmlParser.run_keeps (A:=fun _=>True) fun _ _=>trivial).1
  constructor
  · rintro ⟨-,hstays⟩ off hoff
    have hfits : 20 + ArscParser.declaredConfig d off<2^32:=hstays.sums _ hoff
    omega
  · intro h
    refine ⟨haxml,(ArscParser.run_keeps (A:=fun s=>s∈(ArscParser.run d).sums) ?_
      fun s hs=>hs).1⟩
    intro off hoff
    have hlt:=h off hoff
    omega

def leBytes (n : ℕ) : ℕ → Bytes
  | 0 => []
  | k+1 => (n % 256).toUInt8::leBytes (n/256) k

def emptyPool : Bytes := leBytes 1 2 ++ leBytes 28 2 ++ leBytes 28 4 ++ List.replicate 20 0

/-- The pool of one empty string. -/
def onePool : Bytes :=
  leBytes 1 2 ++ leBytes 28 2 ++ leBytes 35 4 ++ leBytes 1 4 ++ leBytes 0 4 ++ leBytes 0x100 4 ++
    leBytes 32 4 ++ leBytes 0 4 ++ leBytes 0 4 ++ [0,0,0]

def oneSpec : Bytes :=
  leBytes 0x202 2 ++ leBytes 16 2 ++ leBytes 16 4 ++ [1,0,0,0] ++ leBytes 0 4

/-- A type with no entries, whose configuration has nearly 2^32 bytes. -/
def wideType : Bytes :=
  leBytes 0x201 2 ++ leBytes 24 2 ++ leBytes 24 4 ++ [1,0,0,0] ++ leBytes 0 4 ++ leBytes 24 4 ++
    leBytes 0xfffffff0 4

def widePackage : Bytes :=
  leBytes 0x200 2 ++ leBytes 284 2 ++ leBytes 387 4 ++ leBytes 1 4 ++ [97,0] ++
    List.replicate 254 0 ++ leBytes 284 4 ++ leBytes 0 4 ++ leBytes 319 4 ++ leBytes 0 4 ++
    onePool ++ emptyPool ++ oneSpec ++ wideType

def wideTable : Bytes :=
  leBytes 2 2 ++ leBytes 12 2 ++ leBytes 427 4 ++ leBytes 1 4 ++ emptyPool ++ widePackage

set_option maxRecDepth 4000 in
/-- The table ends where its configuration begins to be compared. -/
theorem wideTable_reads_outside :
    ¬ ∀d, Stays d (AxmlParser.run d) ∧ Stays d (ArscParser.run d):=by
  intro h
  have hread : ∃r∈(ArscParser.run wideTable).reads,wideTable.length < r.1+r.2:=by
    decide +kernel
  obtain ⟨r,hr,hout⟩:=hread
  have hin:=(h wideTable).2.reads r hr
  omega

end AutoRefirst.Apk
