import AutoRefirst.AndroidPools
import AutoRefirst.TaggedTrees
import Mathlib.Data.List.Dedup

/-!
# The tree of a manifest

What the parser of binary XML says of a document that it accepts: its chunks, the tree that the
elements form, and where the information comes from.
-/

namespace AutoRefirst.Apk
open CheckedRun TaggedTrees List Option

structure Chunk where
  (off type hs size : ℕ)

/-- The chunk stands in the document as its header says. -/
structure Chunk.In (c : Chunk) (d : Bytes) : Prop where
  type : numeral d c.off 2 = c.type
  headerSize : numeral d (c.off+2) 2=c.hs
  chunkSize : numeral d (c.off+4) 4=c.size
  header : 8 ≤ c.hs ∧ c.hs ≤ c.size
  inside : c.off+c.size≤d.length

/-- The chunks follow one another from one place to another. -/
def Tiles (d : Bytes) : ℕ → List Chunk → ℕ → Prop
  | p, [], stop => p = stop
  | p, c::l, stop => c.off = p ∧ c.In d ∧ Tiles d (p+c.size) l stop

variable {c : Chunk}

theorem Tiles.snoc {d:Bytes} {l:List Chunk} {p q:ℕ} (h:Tiles d p l q) (hoff:c.off=q)
    (hc:c.In d) : Tiles d p (l++[c]) (q+c.size):=by
  induction l generalizing p with
  | nil=>exact ⟨hoff.trans (show p = q from h).symm,hc,by rw [show p = q from h];rfl⟩
  | cons c' l ih=>exact ⟨h.1,h.2.1,ih h.2.2⟩

theorem Tiles.le {d:Bytes} {l:List Chunk} {p q:ℕ} (h:Tiles d p l q) (hp:p≤d.length) :
    q≤d.length:=by
  induction l generalizing p with
  | nil=>exact (show p = q from h)▸hp
  | cons c l ih=>
    obtain ⟨rfl,hc,hrest⟩:=h
    exact ih hrest hc.inside

def Resolves (strings : List Bytes) (idx : ℕ) (s : Bytes) : Prop := strings[idx]? = some s

def ResolvesOrNone (strings : List Bytes) (idx : ℕ) (s : Bytes) : Prop :=
  (idx=AxmlParser.kNoString ∧ s=[]) ∨ Resolves strings idx s

structure AttrAt (d : Bytes) (strings : List Bytes) (a : ℕ) (x : AxmlParser.Attr) : Prop where
  ns : ResolvesOrNone strings (numeral d a 4) x.ns
  name : Resolves strings (numeral d (a+4) 4) x.name
  raw : ResolvesOrNone strings (numeral d (a+8) 4) x.raw
  type : x.type=d.getD (a+15) 0
  data : x.data = numeral d (a+16) 4
  value : if x.type = 0x03 then Resolves strings x.data x.value
    else x.value = AxmlParser.attrValue x.type x.data x.raw
  reference : x.reference=(x.type=0x01 || x.type = 0x07)

def Distinct (attrs : List AxmlParser.Attr) : Prop :=
  attrs.Pairwise fun x y => ¬(x.ns=y.ns ∧ x.name=y.name)

abbrev XmlMark := Mark Bytes (List AxmlParser.Attr)

abbrev Element := Tree Bytes (List AxmlParser.Attr)

abbrev ElementVisit := Visit Bytes (List AxmlParser.Attr)

def Reads (d : Bytes) (strings : List Bytes) (c : Chunk) (marks : List XmlMark) : Prop :=
  if c.type = 0x0102 then ∃ tag attrs, marks = [.start tag attrs] ∧
    Resolves strings (numeral d (c.off+c.hs+4) 4) tag ∧ Distinct attrs ∧
    attrs.length = numeral d (c.off+c.hs+12) 2 ∧
    ∀ i x, attrs[i]? = some x → AttrAt d strings
      (c.off+c.hs + numeral d (c.off+c.hs+8) 2 + i * numeral d (c.off+c.hs+10) 2) x
  else if c.type = 0x0103 then ∃ tag, marks = [.finish tag] ∧
    Resolves strings (numeral d (c.off+c.hs+4) 4) tag
  else marks = [] ∧
    ((c.type=0x0100 ∨ c.type=0x0101) ∧
      (∃ s, ResolvesOrNone strings (numeral d (c.off+c.hs) 4) s) ∧
      (∃ s, ResolvesOrNone strings (numeral d (c.off+c.hs+4) 4) s) ∨
    c.type = 0x0104 ∧ (∃ s, Resolves strings (numeral d (c.off+c.hs) 4) s) ∨
    c.type = 0x0001 ∨ c.type=0x0180)

variable {d : Bytes} {old new : List Bytes} {idx : ℕ} {s : Bytes}

theorem Resolves.mono (h:old <+: new) (hs:Resolves old idx s) : Resolves new idx s:=by
  obtain ⟨rest,rfl⟩:=h
  rw [Resolves,getElem?_append_left (List.getElem?_eq_some_iff.mp hs).1]
  exact hs

theorem ResolvesOrNone.mono (h:old <+: new) (hs:ResolvesOrNone old idx s) :
    ResolvesOrNone new idx s:=hs.imp_right (Resolves.mono h)

theorem AttrAt.mono (h:old <+: new) {a:ℕ} {x:AxmlParser.Attr} (hx:AttrAt d old a x) :
    AttrAt d new a x where
  ns:=hx.ns.mono h
  name:=hx.name.mono h
  raw:=hx.raw.mono h
  type:=hx.type
  data:=hx.data
  value:=by
    have hvalue:=hx.value
    split at hvalue
    case isTrue h3=>rw [if_pos h3];exact Resolves.mono h hvalue
    case isFalse h3=>rw [if_neg h3];exact hvalue
  reference:=hx.reference

/-- Strings that are added later leave what was read. -/
theorem Reads.mono (h:old <+: new) {marks:List XmlMark} (hc:Reads d old c marks) :
    Reads d new c marks:=by
  unfold Reads at hc ⊢
  split at hc
  case isTrue h2=>
    rw [if_pos h2]
    obtain ⟨tag,attrs,hmarks,htag,hdistinct,hlen,hattrs⟩:=hc
    exact ⟨tag,attrs,hmarks,htag.mono h,hdistinct,hlen,fun i x hx=>(hattrs i x hx).mono h⟩
  case isFalse h2=>
    rw [if_neg h2]
    split at hc
    case isTrue h3=>
      rw [if_pos h3]
      obtain ⟨tag,hmarks,htag⟩:=hc
      exact ⟨tag,hmarks,htag.mono h⟩
    case isFalse h3=>
      rw [if_neg h3]
      obtain ⟨hmarks,⟨htype,⟨s,hs⟩,⟨t,ht⟩⟩ | ⟨htype,⟨s,hs⟩⟩ | hrest⟩:=hc
      · exact ⟨hmarks,.inl ⟨htype,⟨s,hs.mono h⟩,⟨t,ht.mono h⟩⟩⟩
      · exact ⟨hmarks,.inr (.inl ⟨htype,⟨s,hs.mono h⟩⟩)⟩
      · exact ⟨hmarks,.inr (.inr hrest)⟩

open AxmlParser

abbrev permissionTags : List String :=
  ["uses-permission","uses-permission-sdk-23","uses-permission-sdk-m"]

abbrev componentTags : List String :=
  ["activity","activity-alias","service","receiver","provider"]

abbrev manifestTag : Bytes := bytes "manifest"

def permissionOf (v : ElementVisit) : Option Bytes :=
  if isOneOf v.tag permissionTags ∧ v.parent = manifestTag then
    (findAndroidAttr v.attrs "name").bind fun a =>
      if isLiteral a ∧ a.value ≠ [] then some a.value else none
  else none

abbrev isComponent (v : ElementVisit) : Prop :=
  (v.tag = bytes "instrumentation" ∧ v.parent = manifestTag) ∨
    (isOneOf v.tag componentTags ∧ v.parent = bytes "application")

def versionIn (attrs : List Attr) (name : String) : Option ℕ :=
  (findAndroidAttr attrs name).bind fun a => if isInteger a then some a.data else none

def sdkOf (name : String) (v : ElementVisit) : Option ℕ :=
  if v.tag = bytes "uses-sdk" ∧ v.parent = manifestTag then versionIn v.attrs name else none

def packageAfter (package : Bytes) (v : ElementVisit) : Bytes :=
  if v.tag = manifestTag then
    match findPlainAttr v.attrs "package" with
    | some a => if isLiteral a then a.value else package
    | none => package
  else package

/-- The components, each with the package name that is known before it. -/
def componentsFrom : Bytes → List ElementVisit → List ApkManifestComponent
  | _, [] => []
  | package, v::l =>
    (if isComponent v then [componentOf package v.tag v.attrs] else []) ++
      componentsFrom (packageAfter package v) l

def lastSdk (name : String) (visits : List ElementVisit) : Bool×ℕ :=
  match (visits.filterMap (sdkOf name)).getLast? with
  | some n => (true,n)
  | none => (false,0)

/-- The part of the information that elements make up. -/
structure Parts where
  permissions : List Bytes
  components : List ApkManifestComponent
  packageName : Bytes
  (minSdk targetSdk : Bool×ℕ)

def partsOf (out : ApkManifestInfo) : Parts where
  permissions := out.permissions
  components := out.components
  packageName := out.packageName
  minSdk := (out.minSdkKnown,out.minSdk)
  targetSdk := (out.targetSdkKnown,out.targetSdk)

def collect (visits : List ElementVisit) : Parts where
  permissions := visits.filterMap permissionOf
  components := componentsFrom [] visits
  packageName := visits.foldl packageAfter []
  minSdk := lastSdk "minSdkVersion" visits
  targetSdk := lastSdk "targetSdkVersion" visits

def sdkFrom : Option ℕ → Bool×ℕ → Bool×ℕ
  | some n, _ => (true,n)
  | none, s => s

def Parts.add (p : Parts) (v : ElementVisit) : Parts where
  permissions := p.permissions++(permissionOf v).toList
  components := p.components ++ if isComponent v then [componentOf p.packageName v.tag v.attrs] else []
  packageName := packageAfter p.packageName v
  minSdk := sdkFrom (sdkOf "minSdkVersion" v) p.minSdk
  targetSdk := sdkFrom (sdkOf "targetSdkVersion" v) p.targetSdk

theorem lastSdk_snoc (name:String) (l:List ElementVisit) (v:ElementVisit) :
    lastSdk name (l++[v])=sdkFrom (sdkOf name v) (lastSdk name l):=by
  rw [lastSdk,filterMap_append]
  cases h : sdkOf name v with
  | none=>simp [h,sdkFrom,lastSdk]
  | some n=>simp [h,sdkFrom]

theorem componentsFrom_snoc (package:Bytes) (l:List ElementVisit) (v:ElementVisit) :
    componentsFrom package (l++[v]) = componentsFrom package l ++
      if isComponent v then [componentOf (l.foldl packageAfter package) v.tag v.attrs] else []:=by
  induction l generalizing package with
  | nil=>simp [componentsFrom]
  | cons u l ih=>rw [cons_append,componentsFrom,ih,componentsFrom,append_assoc];rfl

theorem collect_snoc (l:List ElementVisit) (v:ElementVisit) :
    collect (l++[v])=(collect l).add v:=by
  rw [collect,componentsFrom_snoc,lastSdk_snoc,lastSdk_snoc,filterMap_append, foldl_append]
  cases h : permissionOf v <;> simp [Parts.add,collect,h]

theorem isOneOf_ne {tag:Bytes} {names:List String} {n:String} (h:isOneOf tag names=true)
    (hn:isOneOf (bytes n) names=false) : tag≠bytes n:=by
  rintro rfl
  exact absurd h (by rw [hn];exact Bool.false_ne_true)

theorem isOneOf_disjoint {tag:Bytes} {names others:List String} (h:isOneOf tag names=true)
    (hall:∀n∈names,isOneOf (bytes n) others=false) : isOneOf tag others=false:=by
  obtain ⟨n,hn,htag⟩:=List.any_eq_true.mp h
  rw [of_decide_eq_true htag]
  exact hall n hn

variable {attrs : List Attr} {out : ApkManifestInfo}

theorem withAttr_parts {a:Option Attr} {f:Attr→ApkManifestInfo→ApkManifestInfo}
    (hf:∀a out,partsOf (f a out)=partsOf out) : partsOf (withAttr a f out)=partsOf out:=by
  cases a with
  | none=>rfl
  | some a=>exact hf a out

theorem consumeApplication_parts : partsOf (consumeApplication attrs out)=partsOf out:=by
  unfold consumeApplication
  refine (withAttr_parts fun a out=>?_).trans (withAttr_parts fun a out=>?_)
  · split
    · rfl
    · split <;> rfl
  · split <;> rfl

theorem consumeManifest_parts : partsOf (consumeManifest attrs out) =
    { partsOf out with packageName:=(match findPlainAttr attrs "package" with
      | some a=>if isLiteral a then a.value else out.packageName
      | none=>out.packageName) }:=by
  unfold consumeManifest
  refine (withAttr_parts fun a out=>?_).trans ((withAttr_parts fun a out=>?_).trans ?_)
  · split <;> rfl
  · rfl
  cases findPlainAttr attrs "package" with
  | none=>rfl
  | some a=>by_cases h : isLiteral a = true <;> simp only [AxmlParser.withAttr,h] <;> rfl

theorem consumeUsesSdk_parts : partsOf (consumeUsesSdk attrs out) = { partsOf out with
    minSdk:=sdkFrom (versionIn attrs "minSdkVersion") (partsOf out).minSdk
    targetSdk:=sdkFrom (versionIn attrs "targetSdkVersion") (partsOf out).targetSdk }:=by
  unfold consumeUsesSdk versionIn
  cases findAndroidAttr attrs "minSdkVersion" with
  | none=>
    cases findAndroidAttr attrs "targetSdkVersion" with
    | none=>rfl
    | some b=>by_cases hb : isInteger b = true <;> simp [AxmlParser.withAttr,hb,anomaly] <;> rfl
  | some a=>
    cases findAndroidAttr attrs "targetSdkVersion" with
    | none=>by_cases ha : isInteger a = true <;> simp [AxmlParser.withAttr,ha,anomaly] <;> rfl
    | some b=>
      by_cases ha : isInteger a = true <;> by_cases hb : isInteger b = true <;>
        simp [AxmlParser.withAttr,ha,hb,anomaly] <;> rfl

theorem consumePermission_parts : partsOf (consumePermission attrs out) =
    { partsOf out with permissions:=out.permissions ++
        ((findAndroidAttr attrs "name").bind fun a=>
          if isLiteral a ∧ a.value≠[] then some a.value else none).toList }:=by
  unfold consumePermission
  cases findAndroidAttr attrs "name" with
  | none=>simp [AxmlParser.withAttr,partsOf]
  | some a=>
    by_cases ha : isLiteral a=true ∧ a.value≠[]
    · simp only [AxmlParser.withAttr,if_pos ha,bind_some,toList_some,partsOf]
    · simp only [AxmlParser.withAttr,if_neg ha,bind_some,toList_none,
        append_nil,partsOf]

theorem tags_apart : (∀n ∈ ["manifest","uses-sdk","application","instrumentation"],
      isOneOf (bytes n) permissionTags=false) ∧
    (∀n ∈ ["manifest","uses-sdk","application","uses-permission","uses-permission-sdk-23",
      "uses-permission-sdk-m"], isOneOf (bytes n) componentTags=false) ∧
    (bytes "manifest" ≠ bytes "uses-sdk" ∧ bytes "manifest" ≠ bytes "instrumentation" ∧
      bytes "application" ≠ bytes "uses-sdk" ∧ bytes "application" ≠ bytes "instrumentation" ∧
      bytes "uses-sdk" ≠ bytes "instrumentation"):=by
  decide

variable {v : ElementVisit}

theorem permissionOf_none (h:¬(isOneOf v.tag permissionTags ∧ v.parent=manifestTag)) :
    permissionOf v=none:=if_neg h

theorem packageAfter_eq (h:v.tag≠manifestTag) (package:Bytes) :
    packageAfter package v=package:=if_neg h

theorem other_tag {n:String} (h:v.tag=bytes n) (hperm:isOneOf (bytes n) permissionTags=false)
    (hcomp:isOneOf (bytes n) componentTags=false) (hi:bytes n ≠ bytes "instrumentation") :
    ¬(isOneOf v.tag permissionTags=true ∧ v.parent=manifestTag) ∧ ¬isComponent v:=
  ⟨fun hp=>isOneOf_ne hp.1 hperm h,fun hc=>hc.elim (fun hc=>hi (h.symm.trans hc.1))
    fun hc=>isOneOf_ne hc.1 hcomp h⟩

theorem add_plain {p:Parts} (hperm:¬(isOneOf v.tag permissionTags=true ∧ v.parent=manifestTag))
    (hcomp:¬isComponent v) (hsdk:¬(v.tag=bytes "uses-sdk" ∧ v.parent=manifestTag)) :
    p.add v = {p with packageName:=packageAfter p.packageName v}:=by
  have hnone (name:String) : sdkOf name v=none:=if_neg hsdk
  simp [Parts.add,permissionOf_none hperm,hcomp,hnone,sdkFrom]

theorem consumeTag_parts : partsOf (consumeTag v.tag v.parent v.attrs out)=(partsOf out).add v:=by
  obtain ⟨hperms,hcomps,hms,hmi,has,hai,hsi⟩:=tags_apart
  unfold consumeTag
  by_cases hmanifest : v.tag=bytes "manifest"
  case pos=>
    obtain ⟨hperm,hcomp⟩:=other_tag hmanifest (hperms _ (by simp)) (hcomps _ (by simp)) hmi
    rw [if_pos hmanifest,add_plain hperm hcomp fun h=>hms (hmanifest.symm.trans h.1),
      packageAfter,if_pos hmanifest]
    exact consumeManifest_parts
  rw [if_neg hmanifest]
  have hpackage:=packageAfter_eq hmanifest out.packageName
  by_cases hsdk : v.tag=bytes "uses-sdk" ∧ v.parent=bytes "manifest"
  case pos=>
    obtain ⟨hperm,hcomp⟩:=other_tag hsdk.1 (hperms _ (by simp)) (hcomps _ (by simp)) hsi
    rw [if_pos hsdk,consumeUsesSdk_parts,Parts.add,permissionOf_none hperm,if_neg hcomp,
      sdkOf,if_pos hsdk,sdkOf,if_pos hsdk]
    simp [partsOf,hpackage]
  rw [if_neg hsdk]
  by_cases happ : v.tag=bytes "application" ∧ v.parent=bytes "manifest"
  case pos=>
    obtain ⟨hperm,hcomp⟩:=other_tag happ.1 (hperms _ (by simp)) (hcomps _ (by simp)) hai
    rw [if_pos happ,add_plain hperm hcomp hsdk,consumeApplication_parts]
    simp [partsOf,hpackage]
  rw [if_neg happ]
  have hnone (name:String) : sdkOf name v=none:=if_neg hsdk
  by_cases hperm : isOneOf v.tag permissionTags=true ∧ v.parent=manifestTag
  case pos=>
    have hother : isOneOf v.tag componentTags=false:=isOneOf_disjoint hperm.1 fun n hn=>
      hcomps n (by simp [permissionTags] at hn;simp [hn])
    have hcomp : ¬isComponent v:=fun h=>h.elim
      (fun h=>isOneOf_ne hperm.1 (hperms "instrumentation" (by simp)) h.1)
      fun h=>Bool.false_ne_true (hother.symm.trans h.1)
    rw [if_pos hperm,consumePermission_parts,Parts.add,if_neg hcomp,hnone,hnone,permissionOf,
      if_pos hperm]
    simp [partsOf,hpackage,sdkFrom]
  rw [if_neg hperm]
  by_cases hcomp : isComponent v
  case pos=>
    rw [if_pos hcomp,Parts.add,if_pos hcomp,permissionOf_none hperm,hnone,hnone]
    simp [partsOf,hpackage,sdkFrom]
  case neg=>
    rw [if_neg hcomp,Parts.add,if_neg hcomp,permissionOf_none hperm,hnone,hnone]
    simp [partsOf,hpackage,sdkFrom]

variable {off : ℕ}

theorem str_ok {st:AxmlState} : (str st idx off).value=.ok s ↔ Resolves st.strings idx s:=by
  unfold str Resolves
  cases st.strings[idx]? with
  | none=>simp [fail_ok]
  | some t=>simp [pure_ok]

theorem strOrNone_ok {st:AxmlState} (h:(strOrNone st idx off).value=.ok s) :
    ResolvesOrNone st.strings idx s:=by
  unfold strOrNone at h
  split at h
  case isTrue hnone=>exact .inl ⟨hnone,(pure_ok.mp h).symm⟩
  case isFalse=>exact .inr (str_ok.mp h)

theorem attr_ok {st:AxmlState} {a asz:ℕ} {x:Attr} (h:(attr d st a asz).value=.ok x) :
    AttrAt d st.strings a x:=by
  simp only [attr,bind_ok,failIf_ok,axml_u32_ok,axml_u16_ok,byteAt_ok] at h
  obtain ⟨-,hsize,nsIdx,⟨-,hns⟩,nameIdx,⟨-,hname⟩,rawIdx,⟨-,hraw⟩,ns,hns',name,hname',
    raw,hraw',valueSize,hvalueSize,res0,hres0,type,htype,data,⟨-,hdata⟩,-,hheader,hx⟩:=h
  have hns':=strOrNone_ok hns'
  have hraw':=strOrNone_ok hraw'
  rw [str_ok] at hname'
  rw [← hns] at hns'
  rw [← hname] at hname'
  rw [← hraw] at hraw'
  split at hx
  case isTrue h3=>
    obtain ⟨value,hvalue,hx⟩:=bind_ok.mp hx
    obtain rfl:=pure_ok.mp hx
    refine ⟨hns',hname',hraw',htype.symm,hdata.symm,?_,?_⟩
    · rw [if_pos h3]
      exact str_ok.mp hvalue
    · simp [h3]
  case isFalse h3=>
    obtain rfl:=pure_ok.mp hx
    refine ⟨hns',hname',hraw',htype.symm,hdata.symm,?_,rfl⟩
    rw [if_neg h3]

variable {size : ℕ}

theorem attributes_ok {st:AxmlState} {at' count:ℕ} {l:List Attr}
    (h:(attributes d st at' size count).value = .ok l) :
    Distinct l ∧ l.length=count ∧
      ∀i x,l[i]? = some x → AttrAt d st.strings (at'+i*size) x:=by
  unfold attributes at h
  let P (before:List ℕ) (out:List Attr) : Prop:=Distinct out ∧ out.length=before.length ∧
    ∀(i:ℕ) (x:Attr),out[i]? = some x → ∃a,before[i]? = some a ∧ AttrAt d st.strings (at'+a*size) x
  have hinit : P [] []:=⟨List.Pairwise.nil,rfl,fun i x hi=>absurd hi (by simp)⟩
  have hall : P (List.range count) l:=by
    refine each_ok (fun before a out t _ hP ht=>?_) hinit h
    obtain ⟨hdistinct,hlen,hout⟩:=hP
    simp only [bind_ok,failIf_ok,pure_ok] at ht
    obtain ⟨x,hx,-,hnew,rfl⟩:=ht
    refine ⟨?_,by simp [hlen],fun i y hi=>?_⟩
    · rw [Distinct,pairwise_append]
      refine ⟨hdistinct,pairwise_singleton _ _,fun y hy z hz hsame=>?_⟩
      obtain rfl:=mem_singleton.mp hz
      exact hnew ⟨y,hy,hsame⟩
    · rw [getElem?_append] at hi
      split at hi
      case isTrue=>
        obtain ⟨b,hb,hy⟩:=hout i y hi
        exact ⟨b,by rw [getElem?_append_left (List.getElem?_eq_some_iff.mp hb).1,hb],hy⟩
      case isFalse hge=>
        obtain ⟨hzero,rfl⟩ : i-out.length=0 ∧ x=y:=by
          cases hk : i-out.length with
          | zero=>exact ⟨rfl,by simpa [hk] using hi⟩
          | succ k=>simp [hk] at hi
        have hi : i=before.length:=by omega
        exact ⟨a,by rw [hi];simp,attr_ok hx⟩
  refine ⟨hall.1,hall.2.1.trans length_range,fun i x hi=>?_⟩
  obtain ⟨a,ha,hx⟩:=hall.2.2 i x hi
  obtain ⟨hlt,heq⟩:=List.getElem?_eq_some_iff.mp ha
  rw [getElem_range] at heq
  exact heq▸hx

theorem parseStartElement_ok {st st':AxmlState} (htype:c.type=0x0102)
    (h:(parseStartElement d st c.off c.hs c.size).value=.ok st') :
    ∃tag attrs,Reads d st.strings c [.start tag attrs] ∧ Distinct attrs ∧
      st.rootClosed=false ∧ (st.elementStack=[] → tag=manifestTag) ∧
      st'.elementStack=tag::st.elementStack ∧
      st'.rootSeen=(st.rootSeen || st.elementStack = []) ∧ st'.rootClosed=st.rootClosed ∧
      st'.strings=st.strings ∧ st'.stringPoolSeen=st.stringPoolSeen ∧
      partsOf st'.out=partsOf (consumeTag tag (st.elementStack.headD []) attrs st.out):=by
  simp only [parseStartElement,bind_ok,failIf_ok,axml_u32_ok,axml_u16_ok,str_ok] at h
  obtain ⟨-,hpool,-,hclosed,-,hheader,tagIdx,⟨-,htagIdx⟩,tag,htag,start,⟨-,hstart⟩,size,
    ⟨-,hsize⟩,count,⟨-,hcount⟩,id,hid,cls,hcls,style,hstyle,-,hattrSize,-,hspecial,-,
    hfits,attrs,hattrs,st1,hst1,hend⟩:=h
  obtain rfl:=pure_ok.mp hend
  simp only [consumeElement,bind_ok,failIf_ok,pure_ok] at hst1
  obtain ⟨-,hsecond,-,hroot,-,hnested,rfl⟩:=hst1
  obtain ⟨hdistinct,hlen,hall⟩:=attributes_ok hattrs
  refine ⟨tag,attrs,?_,hdistinct,by simpa using hclosed,fun hempty=>?_,rfl,rfl,rfl,rfl,
    rfl,rfl⟩
  · rw [Reads,if_pos htype]
    refine ⟨tag,attrs,rfl,htagIdx▸htag,hdistinct,hlen.trans hcount.symm,fun i x hx=>?_⟩
    rw [hstart,hsize]
    exact hall i x hx
  · by_contra hne
    exact hroot ⟨hempty,hne⟩

theorem parseEndElement_ok {st st':AxmlState} (htype:c.type=0x0103)
    (h:(parseEndElement d st c.off c.hs c.size).value=.ok st') :
    ∃tag stack,Reads d st.strings c [.finish tag] ∧ st.elementStack=tag::stack ∧
      st'.elementStack=stack ∧ st'.rootSeen=st.rootSeen ∧
      st'.rootClosed=(st.rootClosed || stack = []) ∧ st'.strings=st.strings ∧
      st'.stringPoolSeen=st.stringPoolSeen ∧ st'.out=st.out:=by
  simp only [parseEndElement,bind_ok,failIf_ok,axml_u32_ok,str_ok,pure_ok] at h
  obtain ⟨-,hheader,tagIdx,⟨-,htagIdx⟩,tag,htag,-,hhead,rfl⟩:=h
  cases hstack : st.elementStack with
  | nil=>exact absurd hhead (by simp [hstack])
  | cons t stack=>
    have ht : t=tag:=by simpa [hstack] using hhead
    subst ht
    refine ⟨t,stack,?_,rfl,rfl,rfl,rfl,rfl,rfl,rfl⟩
    rw [Reads,if_neg (by omega),if_pos htype]
    exact ⟨t,rfl,htagIdx▸htag⟩

structure Quiet (st st' : AxmlState) : Prop where
  stack : st'.elementStack=st.elementStack
  seen : st'.rootSeen=st.rootSeen
  closed : st'.rootClosed=st.rootClosed
  parts : partsOf st'.out = partsOf st.out

theorem parseStringPool_ok {st st':AxmlState} {hs:ℕ}
    (h:(parseStringPool d st off hs size).value=.ok st') :
    Quiet st st' ∧ st.stringPoolSeen=false ∧ st'.stringPoolSeen=true:=by
  simp only [parseStringPool,bind_ok,failIf_ok,pure_ok] at h
  obtain ⟨-,hseen,-,-,header,-,strings,-,rfl⟩:=h
  exact ⟨⟨rfl,rfl,rfl,rfl⟩,by simpa using hseen,rfl⟩

theorem parseResourceMap_ok {st st':AxmlState} {hs:ℕ}
    (h:(parseResourceMap d st off hs size).value=.ok st') :
    Quiet st st' ∧ st'.strings=st.strings ∧ st'.stringPoolSeen=st.stringPoolSeen:=by
  simp only [parseResourceMap,bind_ok,failIf_ok,pure_ok] at h
  obtain ⟨-,-,-,-,-,-,ids,-,rfl⟩:=h
  exact ⟨⟨rfl,rfl,rfl,rfl⟩,rfl,rfl⟩

theorem parseNamespace_ok {st st':AxmlState} (htype:c.type=0x0100 ∨ c.type=0x0101)
    (h:(parseNamespace d st c.off c.hs c.size).value=.ok st') :
    st'=st ∧ Reads d st.strings c []:=by
  simp only [parseNamespace,bind_ok,axml_u32_ok,pure_ok] at h
  obtain ⟨-,-,a,⟨-,ha⟩,s,hs,b,⟨-,hb⟩,t,ht,rfl⟩:=h
  refine ⟨rfl,?_⟩
  rw [Reads,if_neg (by omega),if_neg (by omega)]
  exact ⟨rfl,.inl ⟨htype,⟨s,ha▸strOrNone_ok hs⟩,⟨t,hb▸strOrNone_ok ht⟩⟩⟩

theorem parseCdata_ok {st st':AxmlState} (htype:c.type=0x0104)
    (h:(parseCdata d st c.off c.hs c.size).value=.ok st') :
    st'=st ∧ Reads d st.strings c []:=by
  simp only [parseCdata,bind_ok,failIf_ok,axml_u32_ok,str_ok,pure_ok] at h
  obtain ⟨-,-,a,⟨-,ha⟩,s,hs,valueSize,-,-,-,res0,-,-,-,rfl⟩:=h
  refine ⟨rfl,?_⟩
  rw [Reads,if_neg (by omega),if_neg (by omega)]
  exact ⟨rfl,.inr (.inl ⟨htype,⟨s,ha▸hs⟩⟩)⟩

theorem reads_other {strings:List Bytes} (htype:c.type=0x0001 ∨ c.type=0x0180) :
    Reads d strings c []:=by
  rw [Reads,if_neg (by omega),if_neg (by omega)]
  exact ⟨rfl,.inr (.inr htype)⟩

def FromPool (d : Bytes) (chunks : List Chunk) (st : AxmlState) : Prop :=
  if st.stringPoolSeen then
    ∃ c∈chunks, c.type=0x0001 ∧ PoolStrings d c.off c.hs c.size st.strings
  else st.strings = []

/-- What has been read up to a place. -/
structure ReadTo (d : Bytes) (p : ℕ) (st : AxmlState) (chunks : List Chunk)
    (marks : List (List XmlMark)) (visits : List ElementVisit) : Prop where
  tiles : Tiles d 8 chunks p
  reads : List.Forall₂ (Reads d st.strings) chunks marks
  follows : Follows (· = manifestTag) [] marks.flatten visits st.elementStack st.rootSeen
    st.rootClosed
  distinct : ∀ v∈visits, Distinct v.attrs
  collected : partsOf st.out = collect visits
  strings : FromPool d chunks st

theorem FromPool.mono {chunks:List Chunk} {st st':AxmlState} (h:FromPool d chunks st)
    (hseen:st'.stringPoolSeen=st.stringPoolSeen) (hstrings:st'.strings=st.strings)
    (c:Chunk) : FromPool d (chunks++[c]) st':=by
  unfold FromPool at h ⊢
  rw [hseen,hstrings]
  split at h
  case isTrue hpool=>
    rw [if_pos hpool]
    obtain ⟨c',hc',hrest⟩:=h
    exact ⟨c',mem_append_left _ hc',hrest⟩
  case isFalse hpool=>
    rw [if_neg hpool]
    exact h

theorem forall₂_snoc {strings:List Bytes} {chunks:List Chunk} {marks:List (List XmlMark)}
    (h:List.Forall₂ (Reads d strings) chunks marks) {m:List XmlMark}
    (hc:Reads d strings c m) : List.Forall₂ (Reads d strings) (chunks++[c]) (marks++[m]):=
  rel_append h (.cons hc .nil)

variable {st st' : AxmlState} {p : ℕ} {chunks : List Chunk} {marks : List (List XmlMark)}
  {visits : List ElementVisit}

theorem ReadTo.quiet (h:ReadTo d p st chunks marks visits) (hoff:c.off=p) (hc:c.In d)
    (hquiet:Quiet st st') (hstrings:st.strings <+: st'.strings)
    (hread:Reads d st'.strings c []) (hpool:FromPool d (chunks++[c]) st') :
    ReadTo d (p+c.size) st' (chunks++[c]) (marks++[[]]) visits where
  tiles:=h.tiles.snoc hoff hc
  reads:=forall₂_snoc (h.reads.imp fun _ _ hr=>hr.mono hstrings) hread
  follows:=by
    rw [hquiet.stack,hquiet.seen,hquiet.closed,flatten_append]
    simpa using h.follows
  distinct:=h.distinct
  collected:=hquiet.parts.trans h.collected
  strings:=hpool

theorem ReadTo.start (h:ReadTo d p st chunks marks visits) (hoff:c.off=p) (hc:c.In d)
    (htype:c.type=0x0102) (hok:(parseStartElement d st c.off c.hs c.size).value=.ok st') :
    ∃m v,ReadTo d (p+c.size) st' (chunks++[c]) (marks++[m]) (visits++[v]):=by
  obtain ⟨tag,attrs,hread,hdistinct,hclosed,hroot,hstack,hseen,hclosed',hstrings,hpool,
    hout⟩:=parseStartElement_ok htype hok
  refine ⟨[.start tag attrs],⟨tag,st.elementStack.headD [],attrs⟩,h.tiles.snoc hoff hc,?_,?_,?_,
    ?_,?_⟩
  · rw [hstrings]
    exact forall₂_snoc h.reads hread
  · have hseen' : st'.rootSeen=true:=by
      rw [hseen]
      by_cases hempty : st.elementStack=[]
      · simp [hempty]
      · simp [h.follows.seen_of_open hempty]
    rw [hstack,hseen',hclosed',hclosed,flatten_append]
    simpa using h.follows.start hclosed hroot attrs
  · intro v hv
    rcases mem_append.mp hv with hv | hv
    · exact h.distinct v hv
    · obtain rfl:=mem_singleton.mp hv
      exact hdistinct
  · rw [hout,collect_snoc,← h.collected]
    exact consumeTag_parts (v:=⟨tag,st.elementStack.headD [],attrs⟩)
  · exact h.strings.mono hpool hstrings c

theorem ReadTo.finish (h:ReadTo d p st chunks marks visits) (hoff:c.off=p) (hc:c.In d)
    (htype:c.type=0x0103) (hok:(parseEndElement d st c.off c.hs c.size).value=.ok st') :
    ∃m,ReadTo d (p+c.size) st' (chunks++[c]) (marks++[m]) visits:=by
  obtain ⟨tag,stack,hread,hstack,hstack',hseen,hclosed,hstrings,hpool,hout⟩:=
    parseEndElement_ok htype hok
  refine ⟨[.finish tag],h.tiles.snoc hoff hc,?_,?_,h.distinct,hout▸h.collected,
    h.strings.mono hpool hstrings c⟩
  · rw [hstrings]
    exact forall₂_snoc h.reads hread
  · have hfollows:=h.follows
    rw [hstack] at hfollows
    have hopen : st.rootClosed=false:=hfollows.not_closed (cons_ne_nil _ _)
    have hlast : st'.rootClosed=true ↔ stack=[]:=by simp [hclosed,hopen]
    have hseen' : st'.rootSeen=true:=hseen.trans (hfollows.seen_of_open (cons_ne_nil _ _))
    rw [hstack',hseen',flatten_append]
    simpa using hfollows.finish hlast

theorem ReadTo.chunk (h:ReadTo d p st chunks marks visits) (hoff:c.off=p) (hc:c.In d)
    (hok:(parseChunk d st c.off c.type c.hs c.size).value=.ok st') :
    ∃m visits',ReadTo d (p+c.size) st' (chunks++[c]) (marks++[m]) visits':=by
  unfold parseChunk at hok
  split at hok
  case isTrue htype=>
    obtain ⟨hquiet,hfresh,hseen⟩:=parseStringPool_ok hok
    have hempty : st.strings=[]:=by
      have hpool:=h.strings
      rwa [FromPool,hfresh] at hpool
    refine ⟨[],visits,h.quiet hoff hc hquiet (by rw [hempty];exact nil_prefix)
      (reads_other (.inl htype)) ?_⟩
    rw [FromPool,hseen]
    exact ⟨c,mem_append_right _ mem_cons_self,htype, parseStringPool_stored hc.inside hempty hok⟩
  split at hok
  case isTrue htype=>
    obtain ⟨hquiet,hstrings,hpool⟩:=parseResourceMap_ok hok
    exact ⟨[],visits,h.quiet hoff hc hquiet (by rw [hstrings]) (reads_other (.inr htype))
      (h.strings.mono hpool hstrings c)⟩
  split at hok
  case isTrue htype=>
    obtain ⟨rfl,hread⟩:=parseNamespace_ok htype hok
    exact ⟨[],visits,h.quiet hoff hc ⟨rfl,rfl,rfl,rfl⟩ (prefix_refl _) hread
      (h.strings.mono rfl rfl c)⟩
  split at hok
  case isTrue htype=>
    obtain ⟨m,v,hnext⟩:=h.start hoff hc htype hok
    exact ⟨m,_,hnext⟩
  split at hok
  case isTrue htype=>
    obtain ⟨m,hnext⟩:=h.finish hoff hc htype hok
    exact ⟨m,_,hnext⟩
  split at hok
  case isTrue htype=>
    obtain ⟨rfl,hread⟩:=parseCdata_ok htype hok
    exact ⟨[],visits,h.quiet hoff hc ⟨rfl,rfl,rfl,rfl⟩ (prefix_refl _) hread
      (h.strings.mono rfl rfl c)⟩
  case isFalse=>exact absurd hok (by simp [fail_ok])

def ReadSome (d : Bytes) (s : ℕ×AxmlState) : Prop :=
  ∃ chunks marks visits, ReadTo d s.1 s.2 chunks marks visits

theorem readSome_turn {s t:ℕ×AxmlState} (h:ReadSome d s)
    (hok:(chunkTurn d s).value=.ok (some t)) : ReadSome d t:=by
  obtain ⟨chunks,marks,visits,hread⟩:=h
  unfold chunkTurn at hok
  split at hok
  case isFalse=>exact absurd (pure_ok.mp hok) (by simp)
  case isTrue hlt=>
    simp only [bind_ok,failIf_ok,axml_u32_ok,axml_u16_ok,pure_ok] at hok
    obtain ⟨-,-,type,⟨-,htype⟩,hs,⟨-,hhs⟩,size,⟨-,hsize⟩,-,hgeometry,st,hst,ht⟩:=hok
    obtain rfl:=some.inj ht
    have hin : Chunk.In ⟨s.1,type,hs,size⟩ d:=
      ⟨htype,hhs,hsize,⟨by simp only;omega,by simp only;omega⟩,by simp only;omega⟩
    obtain ⟨m,visits',hnext⟩:=hread.chunk (c:=⟨s.1,type,hs,size⟩) rfl hin hst
    exact ⟨_,_,visits',hnext⟩

theorem readSome_start {out:ApkManifestInfo} (hout:partsOf out=collect []) :
    ReadSome d (8,{out:=out}):=
  ⟨[],[],[],rfl,.nil,.before,fun _ hv=>absurd hv not_mem_nil,hout,rfl⟩

theorem mem_sortedPermissions {l:List Bytes} : s∈sortedPermissions l ↔ s∈l:=by
  rw [sortedPermissions,mem_dedup,mem_insertionSort]

/-- What is reported comes from these elements: the permissions as a set, the components and the
SDK versions in the order of the elements. -/
structure Reported (visits : List ElementVisit) (out : ApkManifestInfo) : Prop where
  permissions : ∀ s, s∈out.permissions ↔ ∃ v∈visits, permissionOf v = some s
  distinct : out.permissions.Nodup
  components : out.components=componentsFrom [] visits
  minSdk : (out.minSdkKnown,out.minSdk)=lastSdk "minSdkVersion" visits
  targetSdk : (out.targetSdkKnown,out.targetSdk)=lastSdk "targetSdkVersion" visits

theorem finished_reported {st:AxmlState} (h:partsOf st.out=collect visits) :
    Reported visits (finished st):=by
  have hnamed (l:List Bytes) :
      partsOf (if st.out.packageName = [] then {st.out with anomalies:=l} else st.out) =
        collect visits:=by
    split <;> exact h
  have hall:=hnamed (st.out.anomalies++[bytes "manifest package name was not recovered"])
  constructor
  · intro s
    show s ∈ sortedPermissions _ ↔ _
    rw [mem_sortedPermissions]
    exact (iff_of_eq (congrArg (s ∈ ·) (congrArg Parts.permissions hall))).trans mem_filterMap
  · exact nodup_dedup _
  · exact congrArg Parts.components hall
  · exact congrArg Parts.minSdk hall
  · exact congrArg Parts.targetSdk hall

/-- The chunks tile the document behind the header of its root, the strings that they name are those
of its pool, the element chunks are the marks of one tree with the manifest at its root, and what is
reported comes from the elements of the tree. -/
def IsManifestTree (d : Bytes) (out : ApkManifestInfo) : Prop :=
  ∃ strings chunks marks, ∃ root : Element, Tiles d 8 chunks d.length ∧
    (∃ c∈chunks, c.type=0x0001 ∧ PoolStrings d c.off c.hs c.size strings) ∧
    List.Forall₂ (Reads d strings) chunks marks ∧ marks.flatten=root.marks ∧
    root.tag = manifestTag ∧ (∀ v∈root.visits [], Distinct v.attrs) ∧
    Reported (root.visits []) out

theorem parse_ok {st:AxmlState} (hlen:8≤d.length) (hst:ReadSome d (8,st))
    (h:(parse d st).value=.ok out) :
    IsManifestTree d out:=by
  simp only [parse,bind_ok,failIf_ok,axml_u32_ok,axml_u16_ok,pure_ok] at h
  obtain ⟨hs,⟨-,hhs⟩,size,⟨-,hsize⟩,-,hgeometry,⟨p,st'⟩,hturns,-,hcomplete,rfl⟩:=h
  obtain rfl : hs=8:=by omega
  obtain ⟨⟨chunks,marks,visits,hread⟩,hlast⟩:=
    turns_ok (fun s t hs ht=>readSome_turn hs ht) hst hturns
  simp only [not_or,Bool.not_eq_false,not_not] at hcomplete
  obtain ⟨hpool,hseen,hclosed,hstack⟩:=hcomplete
  have hend : p=d.length:=by
    have hle : p≤d.length:=hread.tiles.le hlen
    unfold chunkTurn at hlast
    split at hlast
    case isTrue hlt=>
      simp only [bind_ok,pure_ok] at hlast
      obtain ⟨_,_,_,_,_,_,_,_,_,_,_,_,hsome⟩:=hlast
      simp at hsome
    case isFalse hge=>
      have : ¬p<d.length:=hge
      omega
  have hfollows:=hread.follows
  simp only [hstack,hclosed] at hfollows
  obtain ⟨root,htag,hmarks,rfl⟩:=hfollows.tree
  have hstrings:=hread.strings
  rw [FromPool,hpool,if_pos rfl] at hstrings
  exact ⟨st'.strings,chunks,marks,root,hend▸hread.tiles,hstrings,hread.reads,hmarks,htag,
    hread.distinct,finished_reported hread.collected⟩

/-- A document that is accepted is the tree of a manifest. -/
theorem accepted_manifest_tree (d : Bytes) (out : ApkManifestInfo)
    (h : (AxmlParser.run d).value=.ok out) (hvalid : out.valid=true) :
    IsManifestTree d out := by
  unfold run at h
  split at h
  case isTrue=>
    rw [← pure_ok.mp h] at hvalid
    simp at hvalid
  case isFalse hlen=>
    simp only [bind_ok] at h
    obtain ⟨b,-,h⟩:=h
    split at h
    case isTrue=>
      rw [← pure_ok.mp h] at hvalid
      simp at hvalid
    case isFalse=>
      rcases caught_ok h with ⟨out',hparse,rfl⟩ | ⟨message,offset,rfl⟩
      · obtain ⟨strings,chunks,marks,root,htiles,hpool,hreads,hmarks,htag,hdistinct,hout⟩:=
          parse_ok (by omega) (readSome_start rfl) hparse
        exact ⟨strings,chunks,marks,root,htiles,hpool,hreads,hmarks,htag,hdistinct,
          ⟨hout.permissions,hout.distinct,hout.components,hout.minSdk,hout.targetSdk⟩⟩
      · simp at hvalid

def emptyManifest : Bytes := [3,0,8,0,112,0,0,0,
  1,0,28,0,44,0,0,0,1,0,0,0,0,0,0,0,0,1,0,0,32,0,0,0,0,0,0,0,0,0,0,0,
  8,8,109,97,110,105,102,101,115,116,0,0,
  2,1,16,0,36,0,0,0,1,0,0,0,255,255,255,255,255,255,255,255,0,0,0,0,
  20,0,20,0,0,0,0,0,0,0,0,0,
  3,1,16,0,24,0,0,0,1,0,0,0,255,255,255,255,255,255,255,255,0,0,0,0]

def emptyManifestInfo : ApkManifestInfo where
  candidate := true
  valid := true
  parseComplete := true
  stringPoolUtf8 := true
  stringCount := 1
  startElementCount := 1
  anomalies := [bytes "manifest package name was not recovered"]

theorem accepted_manifest_tree_empty :
    ∃root : Element, root.tag=manifestTag ∧ Reported (root.visits []) emptyManifestInfo:=by
  have hrun : (AxmlParser.run emptyManifest).value=.ok emptyManifestInfo:=by decide +kernel
  obtain ⟨-,-,-,root,-,-,-,-,htag,-,hout⟩:=
    accepted_manifest_tree emptyManifest emptyManifestInfo hrun rfl
  exact ⟨root,htag,hout⟩

end AutoRefirst.Apk
