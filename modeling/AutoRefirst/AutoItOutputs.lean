import AutoRefirst.OutputDisk
import AutoRefirst.Sha256
import Mathlib.Data.Finset.Card

/-!
# The files of an AutoIt container

Scripts are written under two fixed names, resources under names of their own that are compared
with those of the resources before them.
-/

namespace AutoRefirst.AutoIt
open List

inductive RecordKind
  | scriptToken | scriptText | resource
  deriving DecidableEq

structure AutoItRecord where
  recordOffset : ℕ := 0
  subtype : Bytes
  decodedSha256 : String

structure ParsedRecord where
  record : AutoItRecord
  decoded : Bytes

structure Parsed where
  valid : Bool := false
  records : List ParsedRecord := []
  tokenValid : Bool := false
  tokenError : String := ""
  script : Bytes := []
  error : String := ""

structure AutoItInfo where
  valid : Bool := false
  (streamOffset containerOffset containerSize : ℕ := 0)
  records : List AutoItRecord := []

def recordKind (subtype : Bytes) : RecordKind :=
  if subtype = bytes ">>>AUTOIT SCRIPT<<<" then .scriptToken
  else if subtype = bytes ">AUTOIT UNICODE SCRIPT<" then .scriptText
  else if subtype = bytes ">AUTOIT SCRIPT<" then .scriptText
  else .resource

def AutoItRecord.kind (r : AutoItRecord) : RecordKind := recordKind r.subtype

def AutoItRecord.outputName (r : AutoItRecord) : Bytes :=
  if r.kind = .resource then r.subtype else bytes "script.au3"

def decimal (n : ℕ) : Bytes := bytes (toString n)

def resourceName (idx : ℕ) : Bytes := bytes "resource_"++decimal idx ++ bytes ".bin"

/-- What stands behind the last separator. -/
def baseName (s : Bytes) : Bytes := (s.reverse.takeWhile fun c => c ≠ byte '/' ∧ c ≠ byte '\\').reverse

def portable (c : UInt8) : UInt8 :=
  if c < 0x20 ∨ c = byte ':' ∨ c = byte '/' ∨ c = byte '\\' then byte '_' else c

/-- Devices keep their names whatever the extension. -/
def device (stem : Bytes) : Bool :=
  ["con","prn","aux","nul"].any (fun n => stem = bytes n) ||
    (["com","lpt"].any fun n => stem.take 3 = bytes n) && stem.length = 4 &&
      (byte '1' ≤ stem.getD 3 0 && stem.getD 3 0 ≤ byte '9')

def safeName (s : Bytes) (idx : ℕ) : Bytes :=
  let s := baseName s
  if s = [] then resourceName idx
  else
    let s := ((s.map portable).reverse.dropWhile fun c => c = byte '.' ∨ c = byte ' ').reverse
    let stem := (lower s).takeWhile (· ≠ byte '.')
    if s = [] ∨ device stem then resourceName idx else s

variable (base : Bytes)

/-- The name with a number in front of its extension. -/
def suffixed (k : ℕ) : Bytes :=
  if byte '.' ∈ base then
    let dot := base.length-1-base.reverse.idxOf (byte '.')
    base.take dot ++ (byte '_' :: decimal k) ++ base.drop dot
  else base ++ (byte '_' :: decimal k)

/-- The names that are tried for a resource. -/
def attempt : ℕ → Bytes
  | 0 => base
  | k+1 => suffixed base (k+1)

variable (used : List Bytes)

/-- The first of them that nothing has without regard to case. -/
def freeName (base : Bytes) : Bytes :=
  ((List.range (used.length+1)).find? fun k => lower (attempt base k) ∉ used).elim base
    (attempt base)

structure AutoItExtractResult where
  (success scriptsOnly : Bool := false)
  files : List DiskPath := []
  warnings : List String := []
  (recordsVerified scriptsWritten resourcesWritten : ℕ := 0)
  error : String := ""

/-- A file that was chosen, what was to be in it, and whether writing it went well. -/
structure Output where
  (name data : Bytes)
  written : Bool

structure Extraction (σ : Type) where
  disk : σ
  result : AutoItExtractResult
  used : List Bytes := []
  outputs : List Output := []

def scriptTok : Bytes := bytes "script.tok"

def scriptAu3 : Bytes := bytes "script.au3"

section
variable {σ : Type} (D : OutputDisk σ) (dir : DiskPath)

def writeFile (s : σ) (name data : Bytes) : Bool×σ :=
  let made := D.createDirectories s dir
  match made.1 with
  | some _ => (false,made.2)
  | none => D.writeFile made.2 (dir++[name]) data

/-- The state behind a file, before it is counted. -/
def Extraction.put (t : Extraction σ) (name data : Bytes) : Extraction σ :=
  let w := writeFile D dir t.disk name data
  {t with disk:=w.2,outputs:=t.outputs++[⟨name,data,w.1⟩]}

def Extraction.warn (t : Extraction σ) (w : String) : Extraction σ :=
  {t with result:={t.result with warnings:=t.result.warnings++[w]}}

def Extraction.putScript (t : Extraction σ) (name data : Bytes) (warning : String) : Extraction σ :=
  let t' := t.put D dir name data
  if (writeFile D dir t.disk name data).1 then
    { t' with result:={ t'.result with
        files:=t'.result.files++[dir++[name]],scriptsWritten:=t'.result.scriptsWritten+1 } }
  else t'.warn warning

def Extraction.putResource (t : Extraction σ) (name data : Bytes) (sha : String) : Extraction σ :=
  let t' := t.put D dir name data
  if (writeFile D dir t.disk name data).1 ∧
      (D.content t'.disk (dir++[name])).map sha256Bytes = some sha then
    { t' with result:={ t'.result with
        files:=t'.result.files++[dir++[name]],resourcesWritten:=t'.result.resourcesWritten+1 } }
  else t'.warn ("failed to write/verify AutoIt resource: "++textOf name)

/-- The record that the analysis found at the same place; of several the last. -/
def metaAt (records : List AutoItRecord) (offset : ℕ) : Option AutoItRecord :=
  records.reverse.find? fun r => r.recordOffset = offset

def verified (records : List AutoItRecord) (r : ParsedRecord) : Bool :=
  (metaAt records r.record.recordOffset).map AutoItRecord.decodedSha256 =
    some r.record.decodedSha256

def extractRecord (records : List AutoItRecord) (parsed : Parsed) (scriptsOnly : Bool)
    (t : Extraction σ) (r : ParsedRecord×ℕ) : Extraction σ :=
  if !verified records r.1 then
    t.warn ("AutoIt record hash changed between analysis/extraction at " ++
      toString r.1.record.recordOffset)
  else
    let t := { t with result :=
      {t.result with recordsVerified:=t.result.recordsVerified+1} }
    match r.1.record.kind with
    | .scriptToken =>
      let t := t.putScript D dir scriptTok r.1.decoded "failed to write script.tok"
      let t := if parsed.script = [] then t
        else t.putScript D dir scriptAu3 parsed.script "failed to write script.au3"
      if parsed.tokenValid then t
      else t.warn ("script.au3 is partial because token decoding stopped: "++parsed.tokenError)
    | .scriptText => t.putScript D dir scriptAu3 parsed.script "failed to write script.au3"
    | .resource =>
      if scriptsOnly then t
      else
        let n := freeName t.used (safeName r.1.record.outputName r.2)
        {t with used:=lower n :: t.used}.putResource D dir n r.1.decoded
          r.1.record.decodedSha256

def extractRecords (records : List AutoItRecord) (parsed : Parsed) (scriptsOnly : Bool)
    (t : Extraction σ) : Extraction σ :=
  (parsed.records.zipIdx 1).foldl (extractRecord D dir records parsed scriptsOnly) t

/-- The range of the records in the input. -/
def rangeValid (d : Bytes) (i : AutoItInfo) : Bool :=
  i.streamOffset ≤ d.length && i.containerOffset+i.containerSize ≤ d.length &&
    i.containerOffset ≤ i.streamOffset

def succeeded (i : AutoItInfo) (parsed : Parsed) (scriptsOnly : Bool)
    (r : AutoItExtractResult) : Bool :=
  if scriptsOnly then 0 < r.scriptsWritten
  else r.recordsVerified == parsed.records.length && r.recordsVerified == i.records.length &&
    0 < r.scriptsWritten

variable (parseRecords : Bytes→ℕ→Parsed)

/-- The records, parsed once more from the range they were found in. -/
def reparsed (d : Bytes) (i : AutoItInfo) : Parsed :=
  parseRecords ((d.drop i.streamOffset).take (i.containerOffset+i.containerSize-i.streamOffset))
    i.streamOffset

def extractAutoit (d : Bytes) (i : AutoItInfo) (scriptsOnly : Bool) (s : σ) : Extraction σ :=
  let r : AutoItExtractResult := { scriptsOnly }
  if !i.valid then {disk:=s,result:={r with error := "invalid AutoIt info"}}
  else if !rangeValid d i then
    {disk:=s,result:={r with error := "AutoIt stored stream range invalid"}}
  else if i.containerOffset+i.containerSize < i.streamOffset then
    {disk:=s,result:={r with error := "AutoIt container range invalid"}}
  else
    let parsed := reparsed parseRecords d i
    if !parsed.valid then
      { disk:=s,result :=
        {r with error := "AutoIt reparse failed during extraction: "++parsed.error} }
    else
      let made := D.createDirectories s dir
      match made.1 with
      | some message =>
        { disk:=made.2,result :=
          {r with error := "cannot create AutoIt output directory: "++message} }
      | none =>
        let t := extractRecords D dir i.records parsed scriptsOnly {disk:=made.2,result:=r}
        let good := succeeded i parsed scriptsOnly t.result
        { t with result:={ t.result with
            success:=good
            error := if good then ""
              else if scriptsOnly then "no AutoIt script artifacts were written"
              else "not all AutoIt records/scripts were extracted and verified" } }

end

theorem decimal_eq (n:ℕ) : decimal n = (Nat.toDigits 10 n).map fun c=>c.toNat.toUInt8:=by
  rw [decimal,bytes,Nat.toString_eq_ofList_toDigits,String.toList_ofList]

theorem toNat_of_mem_toDigits {n:ℕ} {c:Char} (h:c∈Nat.toDigits 10 n) :
    c.toNat.toUInt8.toNat=c.toNat ∧ c.toNat<0x41:=by
  obtain ⟨-,hle⟩:=Char.isDigit_iff_toNat.mp (Nat.isDigit_of_mem_toDigits (by decide) (by decide) h)
  have hle : c.toNat≤57:=hle
  have hmod : c.toNat.toUInt8.toNat = c.toNat % 256:=UInt8.toNat_ofNat'
  exact ⟨by omega,by omega⟩

theorem lowerByte_of_lt {b:UInt8} (h:b.toNat<0x41) : lowerByte b=b:=by
  rw [lowerByte,if_neg]
  rintro ⟨hle,-⟩
  exact absurd (UInt8.le_iff_toNat_le.mp hle) (by simpa using h)

theorem lower_decimal (n:ℕ) : lower (decimal n)=decimal n:=by
  refine (map_congr_left fun b hb=>?_).trans (map_id _)
  rw [decimal_eq] at hb
  obtain ⟨c,hc,rfl⟩:=mem_map.mp hb
  obtain ⟨heq,hlt⟩:=toNat_of_mem_toDigits hc
  exact lowerByte_of_lt (by rwa [heq])

theorem lower_append (a b:Bytes) : lower (a++b) = lower a++lower b:=map_append

theorem lower_length (a:Bytes) : (lower a).length=a.length:=length_map _

theorem decimal_injective : Function.Injective decimal:=by
  have hchars (n:ℕ) : (decimal n).map (fun b=>Char.ofNat b.toNat) = Nat.toDigits 10 n:=by
    rw [decimal_eq,map_map]
    refine (map_congr_left fun c hc=>?_).trans (map_id _)
    rw [Function.comp_apply,(toNat_of_mem_toDigits hc).1,Char.ofNat_toNat]
    rfl
  intro m n h
  rw [← Nat.ofDigitChars_ten_toDigits (n:=m),← hchars,h,hchars,Nat.ofDigitChars_ten_toDigits]

/-- What a numbered name is made of, whatever the number. -/
theorem suffixed_eq :
    ∃stem ext,base=stem++ext ∧ ∀k,suffixed base k = stem++(byte '_' :: decimal k)++ext:=by
  by_cases h : byte '.' ∈ base
  · exact ⟨base.take (base.length-1-base.reverse.idxOf (byte '.')),
      base.drop (base.length-1-base.reverse.idxOf (byte '.')),
      (take_append_drop _ _).symm,fun k=>if_pos h⟩
  · refine ⟨base,[],(append_nil _).symm,fun k=>?_⟩
    rw [suffixed,if_neg h,append_nil]

theorem attempt_injective : Function.Injective fun k=>lower (attempt base k):=by
  obtain ⟨stem,ext,hbase,hsuffixed⟩:=suffixed_eq base
  have hlonger (k:ℕ) : base.length<(suffixed base (k+1)).length:=by
    rw [hsuffixed,hbase]
    simp only [length_append,length_cons]
    omega
  intro j k h
  cases j with
  | zero=>
    cases k with
    | zero=>rfl
    | succ k=>
      have:=congrArg List.length h
      simp only [attempt,lower_length] at this
      exact absurd this (hlonger k).ne
  | succ j=>
    cases k with
    | zero=>
      have:=congrArg List.length h
      simp only [attempt,lower_length] at this
      exact absurd this (hlonger j).ne'
    | succ k=>
      simp only [attempt,hsuffixed,lower_append,append_cancel_right_eq, append_cancel_left_eq] at h
      have hdigits : decimal (j+1)=decimal (k+1):=by
        rw [← lower_decimal,← lower_decimal (k+1)]
        exact (List.cons.inj h).2
      exact decimal_injective hdigits

/-- A numbered name has a mark that the names of the scripts do not have. -/
theorem underscore_mem_suffixed (k:ℕ) : byte '_' ∈ lower (suffixed base k):=by
  obtain ⟨stem,ext,-,hsuffixed⟩:=suffixed_eq base
  rw [hsuffixed,lower_append,lower_append]
  exact mem_append_left _ (mem_append_right _ mem_cons_self)

/-- Among one more names than are used there is one that is free. -/
theorem exists_unused {f:ℕ→Bytes} (hf:Function.Injective f) (used:List Bytes) :
    ∃k<used.length+1,f k ∉ used:=by
  classical
  have hcard : used.toFinset.card<((Finset.range (used.length+1)).image f).card:=by
    rw [Finset.card_image_of_injective _ hf,Finset.card_range]
    exact Nat.lt_succ_of_le (toFinset_card_le used)
  obtain ⟨n,hn,hfree⟩:=Finset.exists_mem_notMem_of_card_lt_card hcard
  obtain ⟨k,hk,rfl⟩:=Finset.mem_image.mp hn
  exact ⟨k,Finset.mem_range.mp hk,fun h=>hfree (mem_toFinset.mpr h)⟩

theorem freeName_eq (base:Bytes) :
    ∃k,freeName used base=attempt base k ∧ lower (attempt base k) ∉ used ∧
      ∀j<k,lower (attempt base j)∈used:=by
  cases hfind : (List.range (used.length+1)).find? fun k=>lower (attempt base k) ∉ used with
  | none=>
    obtain ⟨k,hk,hfree⟩:=exists_unused (attempt_injective base) used
    have:=find?_eq_none.mp hfind k (mem_range.mpr hk)
    exact absurd hfree (by simpa using this)
  | some k=>
    obtain ⟨hfree,-,hused⟩:=find?_range_eq_some.mp hfind
    exact ⟨k,by rw [freeName,hfind];rfl,by simpa using hfree,
      fun j hj=>by simpa using hused j hj⟩

theorem freeName_unused (base:Bytes) : lower (freeName used base) ∉ used:=by
  obtain ⟨k,hname,hfree,-⟩:=freeName_eq used base
  rwa [hname]

def resourceNames : List Bytes → List Bytes → List Bytes
  | _, [] => []
  | used, base::l => freeName used base :: resourceNames (lower (freeName used base) :: used) l

theorem resourceNames_distinct (l used:List Bytes) : ((resourceNames used l).map lower).Nodup ∧
      ∀n∈resourceNames used l,lower n ∉ used:=by
  induction l generalizing used with
  | nil=>simp [resourceNames]
  | cons base l ih=>
    obtain ⟨hnodup,hnew⟩:=ih (lower (freeName used base)::used)
    refine ⟨?_,fun n hn=>?_⟩
    · rw [resourceNames,map_cons,nodup_cons]
      refine ⟨fun hmem=>?_,hnodup⟩
      obtain ⟨n,hn,heq⟩:=mem_map.mp hmem
      exact hnew n hn (heq▸mem_cons_self)
    · rcases mem_cons.mp hn with rfl | hn
      · exact freeName_unused used base
      · exact fun h=>hnew n hn (mem_cons_of_mem _ h)

theorem resourceNames_filter {x:Bytes} (hx:byte '_' ∉ x) (l used:List Bytes) :
    (resourceNames used l).filter (fun n=>lower n = x) =
      if x ∈ used then [] else (l.find? fun n=>lower n = x).toList:=by
  induction l generalizing used with
  | nil=>simp [resourceNames]
  | cons base l ih=>
    obtain ⟨k,hname,hfree,hused⟩:=freeName_eq used base
    rw [resourceNames,filter_cons,ih]
    by_cases hk : k=0
    case pos=>
      subst hk
      rw [hname,attempt] at *
      by_cases hbase : lower base=x
      · subst hbase
        simp [hfree]
      · simp [hbase,Ne.symm hbase]
    case neg=>
      obtain ⟨k,rfl⟩:=Nat.exists_eq_succ_of_ne_zero hk
      have hne : lower (attempt base (k+1))≠x:=fun h=>
        hx (h▸underscore_mem_suffixed base (k+1))
      have hold : lower base∈used:=hused 0 (Nat.succ_pos k)
      rw [hname]
      by_cases hbase : lower base=x
      · subst hbase
        simp [hne,hold]
      · simp [hne,hne.symm,hbase]

section
variable (records : List AutoItRecord) (parsed : Parsed) (scriptsOnly : Bool)

variable (l : List (ParsedRecord×ℕ))

def tokenRecords : List (ParsedRecord×ℕ) :=
  l.filter fun r => verified records r.1 ∧ r.1.record.kind = .scriptToken

def sourceRecords : List (ParsedRecord×ℕ) :=
  l.filter fun r => verified records r.1 ∧
    (r.1.record.kind = .scriptText ∨ r.1.record.kind = .scriptToken ∧ parsed.script ≠ [])

/-- The names of the resources that are written, made safe. -/
def resourceBases : List Bytes :=
  if scriptsOnly then []
  else (l.filter fun r => verified records r.1 ∧ r.1.record.kind = .resource).map fun r =>
    safeName r.1.record.outputName r.2

variable (used : List Bytes)

def fileNames (l : List (ParsedRecord×ℕ)) : List Bytes :=
  List.replicate (tokenRecords records l).length scriptTok ++
    List.replicate (sourceRecords records parsed l).length scriptAu3 ++
    resourceNames used (resourceBases records scriptsOnly l)

variable {σ : Type} {D : OutputDisk σ} {dir : DiskPath} {records} {parsed} {scriptsOnly}

def Extraction.names (t : Extraction σ) : List Bytes := t.outputs.map Output.name

theorem names_putScript (t:Extraction σ) (name data:Bytes) (w:String) :
    (t.putScript D dir name data w).names = t.names++[name] ∧
      (t.putScript D dir name data w).used=t.used:=by
  unfold Extraction.putScript
  dsimp only
  split <;> simp [Extraction.names,Extraction.put,Extraction.warn]

theorem names_putResource (t:Extraction σ) (name data:Bytes) (sha:String) :
    (t.putResource D dir name data sha).names = t.names++[name] ∧
      (t.putResource D dir name data sha).used=t.used:=by
  unfold Extraction.putResource
  dsimp only
  split <;> simp [Extraction.names,Extraction.put,Extraction.warn]

variable {r : ParsedRecord×ℕ}

theorem fileNames_skip (h:verified records r.1=false) (l:List (ParsedRecord×ℕ)) :
    fileNames records parsed scriptsOnly used (r::l) =
      fileNames records parsed scriptsOnly used l:=by
  simp [fileNames,tokenRecords,sourceRecords,resourceBases,h]

variable (records parsed scriptsOnly) in
/-- The names that a verified record adds. -/
def added (r : ParsedRecord×ℕ) : List Bytes :=
  match r.1.record.kind with
  | .scriptToken => scriptTok :: if parsed.script = [] then [] else [scriptAu3]
  | .scriptText => [scriptAu3]
  | .resource =>
    if scriptsOnly then [] else [freeName used (safeName r.1.record.outputName r.2)]

variable (scriptsOnly) in
def usedAfter (r : ParsedRecord×ℕ) : List Bytes :=
  if r.1.record.kind = .resource ∧ ¬scriptsOnly then
    lower (freeName used (safeName r.1.record.outputName r.2)) :: used
  else used

theorem names_warn (t:Extraction σ) (w:String) :
    (t.warn w).names=t.names ∧ (t.warn w).used=t.used:=⟨rfl,rfl⟩

theorem names_extractRecord (t:Extraction σ) (h:verified records r.1=true) :
    (extractRecord D dir records parsed scriptsOnly t r).names =
        t.names++added parsed scriptsOnly t.used r ∧
      (extractRecord D dir records parsed scriptsOnly t r).used =
        usedAfter scriptsOnly t.used r:=by
  simp only [extractRecord,h,Bool.not_true,Bool.false_eq_true,if_false]
  cases hkind : r.1.record.kind with
  | scriptToken=>
    by_cases hscript : parsed.script=[] <;> by_cases hvalid : parsed.tokenValid=true <;>
      simp [hscript,hvalid,names_putScript,names_warn,added,usedAfter,hkind] <;> rfl
  | scriptText=>
    simp [names_putScript,added,usedAfter,hkind]
    rfl
  | resource=>
    by_cases honly : scriptsOnly=true
    · simp [honly,added,usedAfter,hkind]
      rfl
    · simp [honly,names_putResource,added,usedAfter,hkind]
      rfl

variable {x a b : Bytes} {n m : ℕ}

/-- Counting: one more script of either kind, or one more resource in front. -/
theorem count_files {i j:ℕ} (R:List Bytes) : (List.replicate i a++List.replicate j b ++
        (List.replicate n a++List.replicate m b++R)).count x =
      (List.replicate (n+i) a++List.replicate (m+j) b++R).count x:=by
  simp only [count_append,count_replicate]
  split_ifs <;> omega

theorem count_resource {c:Bytes} (R:List Bytes) :
    ([c]++(List.replicate n a++List.replicate m b++R)).count x =
      (List.replicate n a++List.replicate m b++c::R).count x:=by
  simp only [count_append,count_cons,count_nil]
  omega

theorem length_filter_cons {α:Type} (p:α→Prop) [DecidablePred p] (a:α) (l:List α) :
    ((a::l).filter fun a=>p a).length = (l.filter fun a=>p a).length + if p a then 1 else 0:=by
  rw [filter_cons]
  by_cases h : p a <;> simp [h]

theorem fileNames_script (h:r.1.record.kind≠.resource) (used:List Bytes) (l:List (ParsedRecord×ℕ)) :
    resourceNames used (resourceBases records scriptsOnly (r::l)) =
      resourceNames used (resourceBases records scriptsOnly l):=by
  rw [resourceBases,resourceBases,filter_cons_of_neg]
  exact fun hr=>h (of_decide_eq_true hr).2

theorem fileNames_cons (h:verified records r.1=true) (l:List (ParsedRecord×ℕ)) :
    (added parsed scriptsOnly used r ++
        fileNames records parsed scriptsOnly (usedAfter scriptsOnly used r) l).Perm
      (fileNames records parsed scriptsOnly used (r::l)):=by
  refine perm_iff_count.mpr fun x=>?_
  rw [fileNames,fileNames,tokenRecords,tokenRecords,sourceRecords,sourceRecords,
    length_filter_cons,length_filter_cons,added,usedAfter]
  generalize hT : (l.filter fun r=>verified records r.1 ∧ r.1.record.kind=.scriptToken).length=T
  generalize hS : (l.filter fun r=>verified records r.1 ∧ (r.1.record.kind=.scriptText ∨
    r.1.record.kind=.scriptToken ∧ parsed.script≠[])).length=S
  have hother {k j:RecordKind} {P:Prop} (hne:k≠j) : ¬(k=j ∧ P):=fun h=>hne h.1
  have hlast {k j:RecordKind} {P:Prop} (hne:k≠j) : ¬(P ∧ k=j):=fun h=>hne h.2
  cases hkind : r.1.record.kind with
  | scriptToken=>
    rw [fileNames_script (by rw [hkind];exact RecordKind.noConfusion),
      if_pos (⟨h,rfl⟩ : verified records r.1=true ∧ RecordKind.scriptToken=.scriptToken),
      if_neg (hother (k := .scriptToken) (j := .resource) RecordKind.noConfusion)]
    by_cases hscript : parsed.script=[]
    · have hnone : ¬(verified records r.1=true ∧ (RecordKind.scriptToken=.scriptText ∨
          RecordKind.scriptToken=.scriptToken ∧ parsed.script≠[])):=
        fun hs=>hs.2.elim RecordKind.noConfusion fun ht=>ht.2 hscript
      rw [if_pos hscript,if_neg hnone]
      exact count_files (i:=1) (j:=0) _
    · have hone : verified records r.1=true ∧ (RecordKind.scriptToken=.scriptText ∨
          RecordKind.scriptToken=.scriptToken ∧ parsed.script≠[]):=⟨h,.inr ⟨rfl,hscript⟩⟩
      rw [if_neg hscript,if_pos hone]
      exact count_files (i:=1) (j:=1) _
  | scriptText=>
    have hone : verified records r.1=true ∧ (RecordKind.scriptText=.scriptText ∨
        RecordKind.scriptText=.scriptToken ∧ parsed.script≠[]):=⟨h,.inl rfl⟩
    rw [fileNames_script (by rw [hkind];exact RecordKind.noConfusion),
      if_neg (hlast (k := .scriptText) (j := .scriptToken) RecordKind.noConfusion),if_pos hone,
      if_neg (hother (k := .scriptText) (j := .resource) RecordKind.noConfusion)]
    exact count_files (i:=0) (j:=1) _
  | resource=>
    have hnone : ¬(verified records r.1=true ∧ (RecordKind.resource=.scriptText ∨
        RecordKind.resource=.scriptToken ∧ parsed.script≠[])):=
      fun hs=>hs.2.elim RecordKind.noConfusion fun ht=>RecordKind.noConfusion ht.1
    rw [if_neg (hlast (k := .resource) (j := .scriptToken) RecordKind.noConfusion),if_neg hnone]
    by_cases honly : scriptsOnly=true
    · simp only [resourceBases,honly,not_true,and_false,if_true,if_false]
      rfl
    · have hpos : RecordKind.resource=.resource ∧ ¬scriptsOnly=true:=⟨rfl,honly⟩
      rw [if_neg honly,if_pos hpos,resourceBases,if_neg honly,resourceBases,
        if_neg honly,filter_cons_of_pos (by simp [h,hkind]),map_cons,resourceNames]
      exact count_resource _

theorem names_extractRecords (t:Extraction σ) :
    (l.foldl (extractRecord D dir records parsed scriptsOnly) t).names.Perm
      (t.names++fileNames records parsed scriptsOnly t.used l):=by
  induction l generalizing t with
  | nil=>simp [fileNames,tokenRecords,sourceRecords,resourceBases,resourceNames]
  | cons r l ih=>
    refine (ih _).trans ?_
    by_cases hver : verified records r.1=true
    · rw [(names_extractRecord t hver).1,(names_extractRecord t hver).2,append_assoc]
      exact (fileNames_cons t.used hver l).append_left t.names
    · rw [Bool.not_eq_true] at hver
      rw [extractRecord,hver,fileNames_skip t.used hver]
      exact List.Perm.refl _

theorem underscore_not_mem_scripts :
    byte '_' ∉ scriptTok ∧ byte '_' ∉ scriptAu3 ∧ lower scriptTok=scriptTok ∧
      lower scriptAu3=scriptAu3 ∧ scriptTok≠scriptAu3:=by
  decide

/-- The first resource whose name is this one without regard to case. -/
def firstNamed (l : List Bytes) (x : Bytes) : Option Bytes := l.find? fun n => lower n = x

theorem mem_resourceNames (hx:byte '_' ∉ x) (hlow:lower x=x) (l:List Bytes) :
    x∈resourceNames [] l ↔ firstNamed l x=some x:=by
  have hfilter:=resourceNames_filter hx l []
  rw [if_neg not_mem_nil] at hfilter
  have hmem : x∈resourceNames [] l ↔ x ∈ (resourceNames [] l).filter fun n=>lower n = x:=by
    simp [hlow]
  rw [hmem,hfilter,Option.mem_toList]
  rfl

theorem mem_lower_resourceNames (hx:byte '_' ∉ x) (l:List Bytes) :
    x∈(resourceNames [] l).map lower ↔ (firstNamed l x).isSome:=by
  have hfilter:=resourceNames_filter hx l []
  rw [if_neg not_mem_nil] at hfilter
  have hmem : x∈(resourceNames [] l).map lower ↔
      ((resourceNames [] l).filter fun n=>lower n = x) ≠ []:=by
    simp [filter_eq_nil_iff]
  rw [hmem,hfilter,firstNamed]
  cases l.find? fun n=>lower n = x <;> simp

/-- Repeated names in front of names that are distinct. -/
theorem nodup_files (hab:a≠b) {R:List Bytes} (hR:R.Nodup) :
    (List.replicate n a++List.replicate m b++R).Nodup ↔
      n≤1 ∧ m≤1 ∧ (n≠0 → a ∉ R) ∧ (m≠0 → b ∉ R):=by
  rw [nodup_append,nodup_append,nodup_replicate,nodup_replicate]
  simp only [mem_append,mem_replicate]
  constructor
  · rintro ⟨⟨hn,hm,-⟩,-,hdisjoint⟩
    exact ⟨hn,hm,fun h0 hmem=>hdisjoint a (.inl ⟨h0,rfl⟩) a hmem rfl,
      fun h0 hmem=>hdisjoint b (.inr ⟨h0,rfl⟩) b hmem rfl⟩
  · rintro ⟨hn,hm,ha,hb⟩
    refine ⟨⟨hn,hm,?_⟩,hR,?_⟩
    · rintro x ⟨-,rfl⟩ y ⟨-,rfl⟩
      exact hab
    · rintro x (⟨h0,rfl⟩ | ⟨h0,rfl⟩) y hy rfl
      · exact ha h0 hy
      · exact hb h0 hy

variable (records parsed scriptsOnly) in
/-- At most one record writes each file of the script, and no resource has its name. -/
structure ScriptsApart (taken : Bytes→Prop) : Prop where
  tokens : (tokenRecords records (parsed.records.zipIdx 1)).length≤1
  sources : (sourceRecords records parsed (parsed.records.zipIdx 1)).length≤1
  token : (tokenRecords records (parsed.records.zipIdx 1)).length≠0 → ¬taken scriptTok
  source : (sourceRecords records parsed (parsed.records.zipIdx 1)).length≠0 → ¬taken scriptAu3

theorem scriptsApart_iff {taken:Bytes→Prop} : ScriptsApart records parsed taken ↔
    (tokenRecords records (parsed.records.zipIdx 1)).length≤1 ∧
      (sourceRecords records parsed (parsed.records.zipIdx 1)).length≤1 ∧
      ((tokenRecords records (parsed.records.zipIdx 1)).length≠0 → ¬taken scriptTok) ∧
      ((sourceRecords records parsed (parsed.records.zipIdx 1)).length≠0 → ¬taken scriptAu3):=
  ⟨fun h=>⟨h.tokens,h.sources,h.token,h.source⟩,fun h=>⟨h.1,h.2.1,h.2.2.1,h.2.2.2⟩⟩

variable (records parsed scriptsOnly) in
/-- The resource names as they are asked for. -/
def basesOf : List Bytes := resourceBases records scriptsOnly (parsed.records.zipIdx 1)

theorem fileNames_nodup_iff :
    (fileNames records parsed scriptsOnly [] (parsed.records.zipIdx 1)).Nodup ↔
      ScriptsApart records parsed
        fun x=>firstNamed (basesOf records parsed scriptsOnly) x = some x:=by
  obtain ⟨htok,hau3,hltok,hlau3,hne⟩:=underscore_not_mem_scripts
  have hR : (resourceNames [] (basesOf records parsed scriptsOnly)).Nodup:=
    List.Nodup.of_map lower (resourceNames_distinct _ []).1
  rw [fileNames,← basesOf,nodup_files hne hR,mem_resourceNames htok hltok,
    mem_resourceNames hau3 hlau3,scriptsApart_iff]

theorem lower_fileNames_nodup_iff :
    ((fileNames records parsed scriptsOnly [] (parsed.records.zipIdx 1)).map lower).Nodup ↔
      ScriptsApart records parsed
        fun x=>(firstNamed (basesOf records parsed scriptsOnly) x).isSome:=by
  obtain ⟨htok,hau3,hltok,hlau3,hne⟩:=underscore_not_mem_scripts
  have hR:=(resourceNames_distinct (basesOf records parsed scriptsOnly) []).1
  rw [fileNames,← basesOf,map_append,map_append,map_replicate,
    map_replicate,hltok,hlau3,nodup_files hne hR,mem_lower_resourceNames htok,
    mem_lower_resourceNames hau3,scriptsApart_iff]

variable (D dir) in
/-- When the names are distinct, every file that was written holds its bytes. -/
def Kept (t : Extraction σ) : Prop :=
  t.names.Nodup → ∀ o∈t.outputs, o.written=true →
    D.content t.disk (dir++[o.name]) = some o.data

theorem writeFile_content {s:σ} {name data:Bytes} (h:(writeFile D dir s name data).1=true) :
    D.content (writeFile D dir s name data).2 (dir++[name])=some data:=by
  unfold writeFile at h ⊢
  cases hmade : (D.createDirectories s dir).1 with
  | some e=>simp [hmade] at h
  | none=>
    simp only [hmade] at h ⊢
    exact D.writeFile_content _ _ _ h

theorem writeFile_other (s:σ) {name data:Bytes} {q:DiskPath} (h:q≠dir++[name]) :
    D.content (writeFile D dir s name data).2 q=D.content s q:=by
  unfold writeFile
  cases hmade : (D.createDirectories s dir).1 with
  | some e=>
    simp only [hmade]
    exact D.createDirectories_content _ _ _
  | none=>
    simp only [hmade]
    exact (D.writeFile_other _ _ _ _ h).trans (D.createDirectories_content _ _ _)

variable {t : Extraction σ}

theorem Kept.put (h:Kept D dir t) (name data:Bytes) : Kept D dir (t.put D dir name data):=by
  intro hnodup o ho hwritten
  have hnames : (t.put D dir name data).names=t.names++[name]:=by
    simp [Extraction.names,Extraction.put]
  rw [hnames,nodup_append] at hnodup
  obtain ⟨hold,-,hdisjoint⟩:=hnodup
  rcases mem_append.mp ho with ho | ho
  · have hne : dir++[o.name]≠dir++[name]:=by
      intro heq
      have hname : o.name=name:=by simpa using heq
      exact hdisjoint o.name (mem_map_of_mem ho) name (by simp) hname
    exact (writeFile_other t.disk hne).trans (h hold o ho hwritten)
  · obtain rfl:=mem_singleton.mp ho
    exact writeFile_content hwritten

theorem Kept.putScript (h:Kept D dir t) (name data:Bytes) (w:String) :
    Kept D dir (t.putScript D dir name data w):=by
  unfold Extraction.putScript
  dsimp only
  split
  · exact h.put name data
  · exact h.put name data

theorem Kept.putResource (h:Kept D dir t) (name data:Bytes) (sha:String) :
    Kept D dir (t.putResource D dir name data sha):=by
  unfold Extraction.putResource
  dsimp only
  split
  · exact h.put name data
  · exact h.put name data

theorem Kept.extractRecord (h:Kept D dir t) (r:ParsedRecord×ℕ) :
    Kept D dir (extractRecord D dir records parsed scriptsOnly t r):=by
  unfold AutoIt.extractRecord
  by_cases hver : verified records r.1=true
  case neg=>
    rw [Bool.not_eq_true] at hver
    rw [hver]
    exact h
  case pos=>
    simp only [hver,Bool.not_true,Bool.false_eq_true,if_false]
    cases r.1.record.kind with
    | scriptToken=>
      dsimp only
      split
      all_goals
        split
        · exact Kept.putScript (by exact h) _ _ _
        · exact Kept.putScript (Kept.putScript (by exact h) _ _ _) _ _ _
    | scriptText=>exact Kept.putScript (by exact h) _ _ _
    | resource=>
      dsimp only
      split
      · exact h
      · exact Kept.putResource (by exact h) _ _ _

theorem Kept.extractRecords (h:Kept D dir t) :
    Kept D dir (extractRecords D dir records parsed scriptsOnly t):=by
  unfold AutoIt.extractRecords
  induction parsed.records.zipIdx 1 generalizing t with
  | nil=>exact h
  | cons r l ih=>exact ih (h.extractRecord r)

variable (D dir) in
/-- The extraction gets as far as the records. -/
def Enters (parseRecords : Bytes→ℕ→Parsed) (d : Bytes) (i : AutoItInfo) (s : σ) : Prop :=
  i.valid = true ∧ rangeValid d i = true ∧ i.streamOffset ≤ i.containerOffset+i.containerSize ∧
    (reparsed parseRecords d i).valid = true ∧ (D.createDirectories s dir).1=none

variable (D dir scriptsOnly) in
theorem extractAutoit_cases (parseRecords:Bytes→ℕ→Parsed) (d:Bytes) (i:AutoItInfo) (s:σ) :
    let t:=extractAutoit D dir parseRecords d i scriptsOnly s
    (¬Enters D dir parseRecords d i s ∧ t.outputs=[]) ∨
      (Enters D dir parseRecords d i s ∧ ∃u : Extraction σ,u.outputs=[] ∧ u.used=[] ∧ t.outputs =
          (extractRecords D dir i.records (reparsed parseRecords d i) scriptsOnly u).outputs ∧
        t.disk=(extractRecords D dir i.records (reparsed parseRecords d i) scriptsOnly u).disk):=by
  unfold extractAutoit Enters
  dsimp only
  by_cases hvalid : i.valid=true
  case neg=>simp [hvalid]
  by_cases hrange : rangeValid d i=true
  case neg=>simp [hvalid,hrange]
  by_cases hend : i.containerOffset+i.containerSize < i.streamOffset
  case pos=>simp [hvalid,hrange,hend]
  by_cases hparsed : (reparsed parseRecords d i).valid=true
  case neg=>simp [hvalid,hrange,hend,hparsed]
  cases hmade : (D.createDirectories s dir).1 with
  | some e=>simp [hvalid,hrange,hend,hparsed]
  | none=>
    simp only [hvalid,hrange,hend,hparsed,Bool.not_true,Bool.false_eq_true,if_false]
    exact .inr ⟨⟨trivial,trivial,not_lt.mp hend,trivial,trivial⟩,_,rfl,rfl,rfl,rfl⟩

variable (parseRecords : Bytes→ℕ→Parsed) (d : Bytes) (i : AutoItInfo) (s : σ)

theorem extractAutoit_map_nodup_iff (f:Bytes→Bytes) :
    ((extractAutoit D dir parseRecords d i scriptsOnly s).names.map f).Nodup ↔
      (Enters D dir parseRecords d i s → ((fileNames i.records (reparsed parseRecords d i)
        scriptsOnly [] ((reparsed parseRecords d i).records.zipIdx 1)).map f).Nodup):=by
  rcases extractAutoit_cases scriptsOnly D dir parseRecords d i s
    with ⟨hnot,hnone⟩ | ⟨henter,u,hu,hused,houtputs,-⟩
  · rw [Extraction.names,hnone]
    exact iff_of_true nodup_nil fun h=>absurd h hnot
  · have hperm : (extractRecords D dir i.records (reparsed parseRecords d i) scriptsOnly u).names.Perm
        _:=names_extractRecords ((reparsed parseRecords d i).records.zipIdx 1) u
    have hnames : u.names=[]:=by rw [Extraction.names,hu,map_nil]
    rw [hnames,hused,nil_append] at hperm
    rw [Extraction.names,houtputs,← Extraction.names,(hperm.map f).nodup_iff]
    exact ⟨fun h _=>h,fun h=>h henter⟩

theorem extractAutoit_nodup_iff : (extractAutoit D dir parseRecords d i scriptsOnly s).names.Nodup ↔
      (Enters D dir parseRecords d i s → ScriptsApart i.records (reparsed parseRecords d i)
        fun x=>firstNamed (basesOf i.records (reparsed parseRecords d i) scriptsOnly) x = some x):=by
  rw [← fileNames_nodup_iff,← map_id (extractAutoit D dir parseRecords d i scriptsOnly s).names,
    extractAutoit_map_nodup_iff,map_id]

theorem extractAutoit_lower_nodup_iff :
    ((extractAutoit D dir parseRecords d i scriptsOnly s).names.map lower).Nodup ↔
      (Enters D dir parseRecords d i s → ScriptsApart i.records (reparsed parseRecords d i)
        fun x=>(firstNamed (basesOf i.records (reparsed parseRecords d i) scriptsOnly) x).isSome):=by
  rw [← lower_fileNames_nodup_iff,extractAutoit_map_nodup_iff]

theorem extractAutoit_kept : Kept D dir (extractAutoit D dir parseRecords d i scriptsOnly s):=by
  intro hnodup o ho hwritten
  rcases extractAutoit_cases scriptsOnly D dir parseRecords d i s
    with ⟨-,hnone⟩ | ⟨-,u,hu,-,houtputs,hdisk⟩
  · rw [hnone] at ho
    exact absurd ho not_mem_nil
  · have hkept : Kept D dir u:=fun _ o ho=>by simp [hu] at ho
    rw [Extraction.names,houtputs,← Extraction.names] at hnodup
    rw [houtputs] at ho
    rw [hdisk]
    exact hkept.extractRecords hnodup o ho hwritten

/-- The names of an extraction are distinct exactly when the files of the script are written once
and no resource has their names, both as they stand and without regard to case; files with
distinct names keep their bytes. -/
theorem extractAutoit_names_nodup_iff (D : OutputDisk σ) (dir : DiskPath)
    (parseRecords : Bytes→ℕ→Parsed) (d : Bytes) (i : AutoItInfo) (scriptsOnly : Bool) (s : σ) :
    let t := extractAutoit D dir parseRecords d i scriptsOnly s
    let parsed:=reparsed parseRecords d i
    let bases:=basesOf i.records parsed scriptsOnly
    (t.names.Nodup ↔ (Enters D dir parseRecords d i s →
      ScriptsApart i.records parsed fun x=>firstNamed bases x = some x)) ∧
    ((t.names.map lower).Nodup ↔ (Enters D dir parseRecords d i s →
      ScriptsApart i.records parsed fun x=>(firstNamed bases x).isSome)) ∧
    (t.names.Nodup → ∀o∈t.outputs,o.written=true →
      D.content t.disk (dir++[o.name])=some o.data):=
  ⟨extractAutoit_nodup_iff parseRecords d i s,extractAutoit_lower_nodup_iff parseRecords d i s,
    extractAutoit_kept parseRecords d i s⟩

def namedLikeScript : Parsed where
  valid := true
  tokenValid := true
  script := [0x61]
  records :=
    [⟨⟨0,bytes ">AUTOIT SCRIPT<",sha256Bytes [0x61]⟩,[0x61]⟩,
      ⟨⟨70,bytes "script.au3",sha256Bytes [0x62]⟩,[0x62]⟩]

theorem namedLikeScript_meets :
    let records:=namedLikeScript.records.map ParsedRecord.record
    (sourceRecords records namedLikeScript (namedLikeScript.records.zipIdx 1)).length=1 ∧
      basesOf records namedLikeScript false=[scriptAu3]:=by
  simp only [namedLikeScript]
  generalize sha256Bytes [0x61] = a
  generalize sha256Bytes [0x62] = b
  have hkinds : recordKind (bytes ">AUTOIT SCRIPT<") = .scriptText ∧
      recordKind (bytes "script.au3") = .resource:=by decide
  have hsafe : safeName (bytes "script.au3") 2=scriptAu3:=by decide
  simp [sourceRecords,basesOf,resourceBases,verified,metaAt,AutoItRecord.outputName,
    AutoItRecord.kind,hkinds,hsafe]

theorem resource_overwrites_script :
    ¬ ∀(parseRecords:Bytes→ℕ→Parsed) (d:Bytes) (i:AutoItInfo) (scriptsOnly:Bool),
      (extractAutoit (OutputDisk.memory fun _=>none) [bytes "out"] parseRecords d i scriptsOnly
        fun _=>none).names.Nodup:=by
  intro h
  obtain ⟨hsource,hbases⟩:=namedLikeScript_meets
  have hnodup:=h (fun _ _=>namedLikeScript) []
    {valid:=true,records:=namedLikeScript.records.map ParsedRecord.record} false
  have hapart:=(extractAutoit_nodup_iff _ _ _ _).mp hnodup ⟨rfl,rfl,le_rfl,rfl,rfl⟩
  have hfree:=hapart.source (by rw [reparsed,hsource];exact one_ne_zero)
  rw [reparsed,hbases] at hfree
  exact hfree (by decide)

end

end AutoRefirst.AutoIt
