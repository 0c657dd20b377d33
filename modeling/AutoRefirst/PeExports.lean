import AutoRefirst.PortableExecutable
import Mathlib.Data.List.TakeWhile

/-!
# Exports of portable executables
-/

namespace AutoRefirst.Pe
open List

def rvaOff (pe : PeInfo) (rva fileSize : ℕ) : Option ℕ :=
  if rva < pe.headersSize ∧ rva < fileSize then some rva else inSections pe.sections
where
  inSections : List PeSection → Option ℕ
    | [] => none
    | s::rest =>
      if s.rva ≤ rva ∧ rva < s.rva + max s.vsize s.rawSize then
        if rva-s.rva ≥ s.rawSize then none
        else if s.rawOffset+(rva-s.rva) < fileSize then some (s.rawOffset+(rva-s.rva))
        else inSections rest
      else inSections rest

def maxText : ℕ := 4096

/-- A text is dropped when it has a control character. -/
def printable (s : Bytes) : Bytes := if s.any fun c => c < 0x20 && c != 9 then [] else s

def zstr (d : Bytes) (o : ℕ) : Bytes := printable (((d.drop o).take maxText).takeWhile (· ≠ 0))

structure Dir where
  rva : ℕ := 0
  size : ℕ := 0

/-- The data directory of a number, as the optional header has it. -/
def peDirectory (d : Bytes) (i : ℕ) : Dir :=
  let lfanew := (rd 4 d 0x3c).getD 0
  let oo := lfanew+24
  let opt := (rd 2 d (lfanew+20)).getD 0
  let pe64 := (parsePe d).pe64
  let dd := oo + if pe64 then 112 else 96
  let numDirs := min ((rd 4 d (oo + if pe64 then 108 else 92)).getD 0) 16
  if i < numDirs ∧ dd+(i+1)*8 ≤ oo+opt then
    ⟨(rd 4 d (dd+i*8)).getD 0,(rd 4 d (dd+i*8+4)).getD 0⟩
  else {}

structure PeExport where
  name : Bytes
  forwarder : Bytes
  rva : ℕ
  ordinal : ℕ

def maxExports : ℕ := 2^20

section Parser

variable (d : Bytes) (pe : PeInfo)

/-- The names by the ordinals they stand for; the last one of an ordinal stays. -/
def readNames (no oo : ℕ) : ℕ → ℕ → (ℕ → Option Bytes) → ℕ → Option Bytes
  | 0, _, names => names
  | n+1, i, names =>
    match rd 4 d (no+i*4), rd 2 d (oo+i*2) with
    | some sr, some oi =>
      match rvaOff pe sr d.length with
      | some so => readNames no oo n (i+1) (Function.update names oi (some (zstr d so)))
      | none => readNames no oo n (i+1) names
    | _, _ => names

def readFunctions (dir : Dir) (fo base : ℕ) (names : ℕ→Option Bytes) : ℕ → ℕ → List PeExport
  | 0, _ => []
  | n+1, i =>
    match rd 4 d (fo+i*4) with
    | none => []
    | some rv =>
      if rv = 0 then readFunctions dir fo base names n (i+1)
      else
        { rva:=rv,ordinal:=(base+i) % 2^16,name:=(names (i % 2^16)).getD []
          forwarder :=
            if dir.rva ≤ rv ∧ rv < (dir.rva+dir.size) % 2^32 then
              ((rvaOff pe rv d.length).map (zstr d)).getD []
            else [] } :: readFunctions dir fo base names n (i+1)

def parseExports (dir : Dir) : List PeExport :=
  if dir.rva = 0 ∨ dir.size = 0 then []
  else match rvaOff pe dir.rva d.length with
    | none => []
    | some eo =>
      if eo+40 > d.length then []
      else
        let field (k : ℕ) := (rd 4 d (eo+k)).getD 0
        let nfunc := min (field 20) maxExports
        let nname := min (field 24) maxExports
        let names := match rvaOff pe (field 32) d.length, rvaOff pe (field 36) d.length with
          | some no, some oo => readNames d pe no oo nname 0 fun _ => none
          | _, _ => fun _ => none
        match rvaOff pe (field 28) d.length with
        | some fo => readFunctions d pe dir fo (field 16) names nfunc 0
        | none => []

end Parser

def peExports (d : Bytes) : List PeExport :=
  let pe := parsePe d
  if pe.valid then parseExports d pe (peDirectory d 0) else []

/-- The addresses by index, zero where there is no function, and the names with the indexes that
the ordinal table gives them. -/
structure ExportTable where
  base : ℕ
  functions : List ℕ
  names : List (Bytes×ℕ)

def lastName (names : List (Bytes×ℕ)) (i : ℕ) : Option Bytes :=
  (names.reverse.find? (·.2 = i)).map (·.1)

def ExportTable.nameOf (t : ExportTable) (i : ℕ) : Bytes := (lastName t.names i).getD []

/-- The ordinal, the address and the name of every function. -/
def ExportTable.exported (t : ExportTable) : List (ℕ×ℕ×Bytes) :=
  t.functions.zipIdx.filterMap fun x =>
    if x.1 = 0 then none else some (t.base+x.2,x.1,t.nameOf x.2)

def TextAt (d : Bytes) (o : ℕ) (s : Bytes) : Prop := 0 ∉ s ∧ s++[0] <+: d.drop o

structure Stores (d : Bytes) (t : ExportTable) : Prop where
  valid : (parsePe d).valid=true
  directory : (peDirectory d 0).rva≠0 ∧ (peDirectory d 0).size≠0
  tables : ∃ eo fo no oo, rvaOff (parsePe d) (peDirectory d 0).rva d.length = some eo ∧
    eo + 40 ≤ d.length ∧ rd 4 d (eo+16) = some t.base ∧
    rd 4 d (eo+20) = some t.functions.length ∧ rd 4 d (eo+24) = some t.names.length ∧
    rvaOff (parsePe d) ((rd 4 d (eo+28)).getD 0) d.length = some fo ∧
    rvaOff (parsePe d) ((rd 4 d (eo+32)).getD 0) d.length = some no ∧
    rvaOff (parsePe d) ((rd 4 d (eo+36)).getD 0) d.length = some oo ∧
    (∀ i a, t.functions[i]? = some a → rd 4 d (fo+i*4) = some a) ∧
    ∀ j s i, t.names[j]? = some (s,i) → rd 2 d (oo+j*2) = some i ∧
      ∃ sr so, rd 4 d (no+j*4) = some sr ∧ rvaOff (parsePe d) sr d.length = some so ∧
        TextAt d so s

/-- The name that is read for an index: the last of the first `2 ^ 20` entries, cut after 4096
bytes, and none when it has a control character. -/
def ExportTable.readName (t : ExportTable) (i : ℕ) : Bytes :=
  ((lastName (t.names.take maxExports) i).map fun s => printable (s.take maxText)).getD []

def ExportTable.Fits (t : ExportTable) : Prop :=
  ∀ i a, t.functions[i]? = some a → a≠0 → t.base+i<2^16 ∧ t.readName i = t.nameOf i

theorem zstr_of_textAt {d s:Bytes} {o:ℕ} (h:TextAt d o s) :
    zstr d o=printable (s.take maxText):=by
  obtain ⟨hzero,rest,hrest⟩:=h
  rw [zstr,← hrest]
  congr 1
  have hall : ∀b∈s,decide (b≠0)=true:=fun b hb=>
    decide_eq_true fun h0=>hzero (h0▸hb)
  rcases Nat.lt_or_ge s.length maxText with hlt | hle
  · have htake : (s++[0]++rest).take maxText =
        s++0::rest.take (maxText-s.length-1):=by
      rw [append_assoc,take_append,take_of_length_le hlt.le]
      obtain ⟨n,hn⟩ : ∃n,maxText-s.length=n+1:=⟨maxText-s.length-1,by omega⟩
      rw [hn]
      rfl
    rw [htake,takeWhile_append_of_pos hall,take_of_length_le hlt.le]
    simp
  · rw [append_assoc,take_append_of_le_length hle,takeWhile_eq_self_iff]
    exact fun b hb=>hall b (mem_of_mem_take hb)

theorem lastName_append (l:List (Bytes×ℕ)) (s:Bytes) (i k:ℕ) :
    lastName (l++[(s,i)]) k = if i = k then some s else lastName l k:=by
  unfold lastName
  rw [reverse_append]
  by_cases h : i=k <;> simp [h]

/-- The names that are read from the table, which are those of the entries before it and of its
own. -/
theorem readNames_eq {d:Bytes} {pe:PeInfo} {no oo:ℕ} {all:List (Bytes×ℕ)}
    (hall:∀j s i,all[j]? = some (s,i) → rd 2 d (oo+j*2)=some i ∧
      ∃sr so,rd 4 d (no+j*4)=some sr ∧ rvaOff pe sr d.length=some so ∧ TextAt d so s)
    {n i:ℕ} (hn:i+n≤all.length) {names:ℕ→Option Bytes}
    (hnames:∀k,names k = (lastName (all.take i) k).map fun s=>printable (s.take maxText))
    (k:ℕ) :
    readNames d pe no oo n i names k =
      (lastName (all.take (i+n)) k).map fun s=>printable (s.take maxText):=by
  induction n generalizing i names with
  | zero=>exact hnames k
  | succ n ih=>
    have hi : i<all.length:=by omega
    obtain ⟨hoi,sr,so,hsr,hso,htext⟩:=hall i all[i].1 all[i].2 (getElem?_eq_getElem hi)
    have htake : all.take (i+1) = all.take i++[(all[i].1,all[i].2)]:=(take_append_getElem hi).symm
    rw [readNames,hsr,hoi]
    simp only [hso]
    rw [ih (by omega),Nat.add_right_comm,Nat.add_assoc]
    intro k
    rw [htake,lastName_append,zstr_of_textAt htext]
    by_cases hk : all[i].2=k
    · rw [if_pos hk,← hk,Function.update_self]
      rfl
    · rw [if_neg hk,Function.update_of_ne (Ne.symm hk)]
      exact hnames k

/-- What is reported of a function, without the forwarder. -/
def shown (e : PeExport) : ℕ×ℕ×Bytes := (e.ordinal,e.rva,e.name)

theorem readFunctions_shown {d:Bytes} {pe:PeInfo} {dir:Dir} {fo base:ℕ}
    {names:ℕ→Option Bytes} {n i:ℕ} {l:List ℕ} (hlen:l.length=n)
    (hl:∀j a,l[j]? = some a → rd 4 d (fo+(i+j)*4)=some a) :
    (readFunctions d pe dir fo base names n i).map shown =
      (l.zipIdx i).filterMap fun x=>if x.1=0 then none
        else some ((base+x.2) % 2^16,x.1,(names (x.2 % 2^16)).getD []):=by
  induction n generalizing i l with
  | zero=>
    obtain rfl:=length_eq_zero_iff.mp hlen
    rfl
  | succ n ih=>
    cases l with
    | nil=>simp at hlen
    | cons a l=>
      have hread:=hl 0 a rfl
      have hrest:=ih (i:=i+1) (l:=l) (by simpa using hlen) fun j b hj=>by
        have:=hl (j+1) b hj
        rwa [Nat.add_right_comm i 1 j,Nat.add_assoc]
      rw [Nat.add_zero] at hread
      rw [readFunctions,hread,zipIdx_cons]
      by_cases ha : a=0
      · simp only [ha,if_true,filterMap_cons]
        exact hrest
      · simp only [ha,if_false,filterMap_cons,map_cons,hrest,shown]

/-- Two lists of the functions in use agree when they agree on every one. -/
theorem filterMap_take_eq_iff {α β:Type} (p:α→Prop) [DecidablePred p] (f g:α→β)
    (l:List α) (n:ℕ) :
    ((l.take n).filterMap fun x=>if p x then none else some (f x)) =
        (l.filterMap fun x=>if p x then none else some (g x)) ↔
      (∀x∈l.drop n,p x) ∧ ∀x∈l.take n,¬p x → f x=g x:=by
  induction l generalizing n with
  | nil=>simp
  | cons a l ih=>
    cases n with
    | zero=>
      simp only [take_zero,filterMap_nil,drop_zero,not_mem_nil,false_imp_iff,implies_true,
        and_true,eq_comm (a:=[]),filterMap_eq_nil_iff,ite_eq_left_iff,reduceCtorEq,
        imp_false,not_not]
    | succ n=>
      by_cases ha : p a
      · simpa [ha] using ih n
      · have:=ih n
        simp [ha,this]
        tauto

theorem getElem?_of_take {α:Type} {l:List α} {n i:ℕ} {a:α} (h:(l.take n)[i]? = some a) :
    l[i]? = some a:=by
  rw [getElem?_take] at h
  split at h
  · exact h
  · simp at h

theorem zipIdx_take {α:Type} (l:List α) (n:ℕ) : (l.take n).zipIdx=l.zipIdx.take n:=by
  apply ext_getElem?
  intro i
  by_cases h : i<n <;> simp [getElem?_take,h]

/-- The exports of an image are those of its directory exactly when every one of them fits. -/
theorem exports_named_iff (d : Bytes) (t : ExportTable) (h : Stores d t) :
    (peExports d).map shown=t.exported ↔ t.Fits := by
  obtain ⟨hvalid,⟨hrva,hsize⟩,eo,fo,no,oo,heo,hroom,hbase,hnf,hnn,hfo,hno,hoo,
    hfunctions,hnames⟩:=h
  have hname : ∀k,readNames d (parsePe d) no oo (min t.names.length maxExports) 0
      (fun _=>none) k =
        (lastName (t.names.take maxExports) k).map fun s=>printable (s.take maxText):=by
    intro k
    have hrun : readNames d (parsePe d) no oo (min t.names.length maxExports) 0
        (fun _=>none) k=(lastName (t.names.take (0 + min t.names.length maxExports)) k).map
          fun s=>printable (s.take maxText):=
      readNames_eq hnames (by omega) (fun _=>rfl) k
    rw [hrun,Nat.zero_add,Nat.min_comm,← take_eq_take_min]
  have hread : (peExports d).map shown =
      (t.functions.zipIdx.take maxExports).filterMap fun x=>if x.1=0 then none
        else some ((t.base+x.2) % 2^16,x.1,t.readName (x.2 % 2^16)):=by
    have hlen : (t.functions.take maxExports).length=min t.functions.length maxExports:=by
      rw [length_take,Nat.min_comm]
    unfold peExports parseExports
    simp only [hvalid,if_true,hrva,hsize,or_self,if_false,heo,Nat.not_lt.mpr hroom,hbase,
      hnf,hnn,hfo,hno,hoo,Option.getD_some]
    rw [readFunctions_shown hlen fun j a hj=>?_]
    · simp only [hname]
      rw [zipIdx_take]
      rfl
    · rw [Nat.zero_add]
      exact hfunctions j a (getElem?_of_take hj)
  rw [hread,ExportTable.exported,filterMap_take_eq_iff]
  constructor
  · rintro ⟨hdrop,htake⟩ i a hi ha
    have hmem : (a,i)∈t.functions.zipIdx:=mk_mem_zipIdx_iff_getElem?.mpr hi
    rw [← take_append_drop maxExports t.functions.zipIdx,mem_append] at hmem
    obtain hsame:=htake (a,i) (hmem.resolve_right fun hd=>ha (hdrop _ hd)) ha
    simp only [Prod.mk.injEq,true_and] at hsame
    obtain ⟨hordinal,hname⟩:=hsame
    have hlt : t.base+i<2^16:=hordinal▸Nat.mod_lt _ (by decide)
    rw [Nat.mod_eq_of_lt (by omega)] at hname
    exact ⟨hlt,hname⟩
  · intro hfits
    have hsame : ∀x∈t.functions.zipIdx,x.1≠0 →
        t.base + x.2<2^16 ∧ t.readName x.2=t.nameOf x.2:=
      fun x hx=>hfits x.2 x.1 (mk_mem_zipIdx_iff_getElem?.mp hx)
    refine ⟨fun x hx=>?_,fun x hx ha=>?_⟩
    · obtain ⟨k,hk⟩:=mem_iff_getElem?.mp hx
      rw [getElem?_drop,getElem?_zipIdx,Option.map_eq_some_iff] at hk
      obtain ⟨a,hk,rfl⟩:=hk
      by_contra ha
      have hlt:=(hfits _ a hk ha).1
      unfold maxExports at hlt
      omega
    · obtain ⟨hlt,hname⟩:=hsame x (mem_of_mem_take hx) ha
      rw [Nat.mod_eq_of_lt hlt,Nat.mod_eq_of_lt (by omega),hname]

def word (n k : ℕ) : Bytes := (range k).map fun i => (n/256^i).toUInt8

def twoExports (base : ℕ) : ExportTable := ⟨base,[5,6],[(bytes "a",1)]⟩

def twoExportsImage (base : ℕ) : Bytes :=
  bytes "MZ"++replicate 58 0 ++ word 0x40 4 ++ peSignature ++ replicate 16 0 ++ word 104 2 ++
    word 0 2 ++ word 0x10b 2 ++ replicate 58 0 ++ word 0x1000 4 ++ replicate 28 0 ++ word 1 4 ++
    word 192 4 ++ word 40 4 ++ replicate 16 0 ++ word base 4 ++ word 2 4 ++ word 1 4 ++
    word 232 4 ++ word 240 4 ++ word 244 4 ++ word 5 4 ++ word 6 4 ++ word 246 4 ++ word 1 2 ++
    bytes "a"++[0]

theorem stores_twoExports {base:ℕ} (h:base=1 ∨ base=65535) :
    Stores (twoExportsImage base) (twoExports base) where
  valid:=by rcases h with rfl | rfl <;> decide +kernel
  directory:=by rcases h with rfl | rfl <;> decide +kernel
  tables:=by
    refine ⟨192,232,240,244,?_,?_,?_,?_,?_,?_,?_,?_,fun i a hi=>?_,fun j s i hj=>?_⟩
    iterate 8 rcases h with rfl | rfl <;> decide +kernel
    · have hlt : i<2:=(List.getElem?_eq_some_iff.mp hi).1
      obtain rfl | rfl : i=0 ∨ i=1:=by omega
      all_goals
        obtain rfl:=Option.some.inj hi
        rcases h with rfl | rfl <;> decide +kernel
    · have hlt : j<1:=(List.getElem?_eq_some_iff.mp hj).1
      obtain rfl : j=0:=by omega
      obtain ⟨rfl,rfl⟩:=Prod.mk.inj (Option.some.inj hj)
      have htext : (0 : UInt8) ∉ bytes "a" ∧ bytes "a"++[0] <+: (twoExportsImage base).drop 246:=by
        rcases h with rfl | rfl <;> decide +kernel
      refine ⟨?_,246,246,?_,?_,htext⟩ <;> rcases h with rfl | rfl <;> decide +kernel

theorem exports_named_iff_two :
    (peExports (twoExportsImage 1)).map shown=(twoExports 1).exported ↔ (twoExports 1).Fits:=
  exports_named_iff _ _ (stores_twoExports (.inl rfl))

/-- The ordinal behind the last one of 16 bits is reported as zero. -/
theorem ordinal_truncated : Stores (twoExportsImage 65535) (twoExports 65535) ∧
      (peExports (twoExportsImage 65535)).map shown≠(twoExports 65535).exported:=
  ⟨stores_twoExports (.inr rfl),by decide +kernel⟩

end AutoRefirst.Pe
