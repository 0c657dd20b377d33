import AutoRefirst.ByteText
import AutoRefirst.SkipSearch

/-!
# Search for a needle

`FastPattern` and `find_exact` return the first place where a plain comparison succeeds, and the
search over the files of a tree records the places of a file from the left, without overlap.
-/

namespace AutoRefirst.Search
open List

open SkipSearch

def fold (c : UInt8) : UInt8 := if 0x41 ≤ c ∧ c ≤ 0x5a then c+32 else c

structure FastPattern where
  pattern : Bytes
  ignoreCase : Bool

namespace FastPattern

def widened (utf16 : Bool) (needle : Bytes) : Bytes :=
  needle.flatMap fun c => if utf16 then [c,0] else [c]

def new (needle : Bytes) (ignoreCase utf16 : Bool) : FastPattern :=
  ⟨widened utf16 needle,ignoreCase⟩

def size (f : FastPattern) : ℕ := f.pattern.length

def key (f : FastPattern) (c : UInt8) : UInt8 := if f.ignoreCase then fold c else c

/-- The table that the constructor fills; the last byte of the pattern sets no entry. -/
def skip (f : FastPattern) (c : UInt8) : ℕ := table f.key f.pattern (f.size-1) c

def memchr (d : Bytes) (c : UInt8) (start count : ℕ) : Option ℕ :=
  (((d.drop start).take count).findIdx? (· == c)).map (start + ·)

def find (f : FastPattern) (d : Bytes) (start : ℕ) : Option ℕ :=
  let m := f.size
  if m = 0 ∨ start > d.length ∨ m > d.length-start then none
  else if m = 1 ∧ ¬f.ignoreCase then
    memchr d (f.pattern.getD 0 0) start (d.length-start)
  else
    -- each turn goes a byte forward at least
    search (fun i => matchesBack f.key f.pattern d i m)
      (fun i => f.skip (f.key (d.getD (i+m-1) 0))) (fun i => i+m ≤ d.length)
      (d.length+1) start

end FastPattern

def findExactFrom (data needle : Bytes) (last : ℕ) : ℕ → ℕ → Option ℕ
  | 0, _ => none
  | fuel+1, cur =>
    if cur ≤ last then
      match FastPattern.memchr data (needle.getD 0 0) cur (last-cur+1) with
      | none => none
      | some hit =>
        if needle.length = 1 ∨ (data.drop hit).take needle.length = needle then some hit
        else findExactFrom data needle last fuel (hit+1)
    else none

def findExact (data needle : Bytes) (start : ℕ) : Option ℕ :=
  if needle = [] then if start ≤ data.length then some start else none
  else if start > data.length ∨ needle.length > data.length-start then none
  else findExactFrom data needle (data.length-needle.length) (data.length+1) start

inductive Encoding where
  | ascii | utf16le
  deriving DecidableEq

structure Hit where
  offset : ℕ
  encoding : Encoding
  deriving DecidableEq

structure SearchOptions where
  needle : Bytes
  ignoreCase : Bool := false

/-- The offsets that a pattern has in a file; the next search starts behind the last hit. -/
def patternHits (f : FastPattern) (least : ℕ) (d : Bytes) : List ℕ :=
  hits (f.find d) (max least f.size) (d.length+2) 0

def searchFile (o : SearchOptions) (d : Bytes) : List Hit :=
  (patternHits (.new o.needle o.ignoreCase false) 1 d).map (⟨·,.ascii⟩) ++
    (patternHits (.new o.needle o.ignoreCase true) 2 d).map (⟨·,.utf16le⟩)

structure SearchStats where
  (files bytes found : ℕ := 0)

def searchTreeStreaming (o : SearchOptions) (files : List Bytes) : SearchStats×List (List Hit) :=
  if o.needle = [] then ({},[])
  else files.foldl (fun (st,recorded) d =>
    let l := searchFile o d
    ({files:=st.files+1,bytes:=st.bytes+d.length,found:=st.found+l.length},
      recorded ++ [l])) ({},[])

theorem memchr_isFirst (d:Bytes) (c:UInt8) (start count:ℕ) :
    IsFirst (fun i=>i<start+count ∧ d[i]? = some c) start
      (FastPattern.memchr d c start count):=by
  have hget : ∀k,k<count → ((d.drop start).take count)[k]? = d[start+k]? := by
    intro k hk
    rw [getElem?_take_of_lt hk,getElem?_drop]
  unfold FastPattern.memchr
  cases hres : ((d.drop start).take count).findIdx? (· == c) with
  | none=>
    rw [findIdx?_eq_none_iff] at hres
    rintro i hi ⟨hlt,hc⟩
    have hmem : c∈(d.drop start).take count:=by
      refine mem_of_getElem? (i:=i-start) ?_
      rw [hget _ (by omega),← hc]
      congr 1
      omega
    exact absurd (beq_self_eq_true c) (Bool.not_eq_true _▸hres c hmem)
  | some k=>
    obtain ⟨hk,hhere,hbefore⟩:=findIdx?_eq_some_iff_getElem.mp hres
    have hlen : k<count:=by
      rw [length_take] at hk
      omega
    have hc : d[start+k]? = some c:=by
      rw [← hget k hlen,getElem?_eq_getElem hk,beq_iff_eq.mp hhere]
    have hlt : start+k<start+count:=by omega
    refine ⟨⟨Nat.le_add_right _ _,hlt,hc⟩,fun j hj hjk hP=>?_⟩
    have hne:=hbefore (j-start) (by
      change j < start+k at hjk
      omega)
    rw [Bool.not_eq_true,beq_eq_false_iff_ne] at hne
    apply hne
    have hj':=hget (j-start) (by
      change j < start+k at hjk
      omega)
    rw [Nat.add_sub_cancel' hj,hP.2] at hj'
    exact Option.some.inj ((getElem?_eq_getElem _).symm.trans hj')

variable {needle : Bytes}

theorem widened_ne_nil {utf16:Bool} (h:needle≠[]) : FastPattern.widened utf16 needle≠[]:=by
  obtain ⟨c,rest,rfl⟩:=exists_cons_of_ne_nil h
  cases utf16 <;> exact cons_ne_nil _ _

theorem widened_length (utf16:Bool) (needle:Bytes) :
    (FastPattern.widened utf16 needle).length = (if utf16 then 2 else 1)*needle.length:=by
  unfold FastPattern.widened
  rw [length_flatMap]
  induction needle with
  | nil=>cases utf16 <;> rfl
  | cons c needle ih=>
    rw [map_cons,sum_cons,ih,length_cons]
    cases utf16
    · change 1 + 1*needle.length=1*(needle.length+1)
      omega
    · change 2 + 2*needle.length=2*(needle.length+1)
      omega

variable {i : ℕ}

theorem matches_singleton {key:UInt8→UInt8} {c:UInt8} {d:Bytes} :
    Matches key [c] d i ↔ i<d.length ∧ (d[i]?).map key=some (key c):=by
  rw [matches_iff]
  constructor
  · exact fun h=>⟨h.1,h.2 0 (Nat.lt_succ_self 0)⟩
  · rintro ⟨hi,hc⟩
    refine ⟨hi,fun j hj=>?_⟩
    obtain rfl : j=0:=Nat.lt_one_iff.mp hj
    exact hc

namespace FastPattern

variable {f : FastPattern} {d : Bytes}

theorem skips (hf:0<f.size) (hd:f.size≤d.length) :
    Skips (Matches f.key f.pattern d) (fun i=>matchesBack f.key f.pattern d i f.size)
      (fun i=>f.skip (f.key (d.getD (i+f.size-1) 0))) (fun i=>i+f.size≤d.length)
      (d.length+1-f.size) where
  inside_iff i:=by
    rw [decide_eq_true_iff]
    omega
  outside i hi hmatch:=by
    have hle:=hmatch.1
    change i + f.size ≤ d.length at hle
    omega
  found_iff i hi:=by
    rw [matchesBack_iff,matches_iff]
    refine (and_iff_right ?_).symm
    change i + f.size ≤ d.length
    omega
  forward i _:=by
    refine table_pos f.key f.pattern ?_ _
    unfold size at hf ⊢
    omega
  safe i j hi hij hj:=by
    have hlast : i+f.pattern.length-1<d.length:=by
      unfold size at hi hd hf
      omega
    refine not_matches_of_skip hf (getElem?_eq_getElem hlast) hij ?_
    rw [getD_eq_getElem?_getD] at hj
    unfold size at hj
    rw [getElem?_eq_getElem hlast] at hj
    exact hj

theorem find_isFirst (hf:0<f.size) (start:ℕ) :
    IsFirst (Matches f.key f.pattern d) start (f.find d start):=by
  unfold find
  dsimp only
  by_cases hshort : f.size=0 ∨ start > d.length ∨ f.size > d.length-start
  · rw [if_pos hshort]
    intro i hi hmatch
    have hle:=hmatch.1
    change i + f.size ≤ d.length at hle
    omega
  rw [if_neg hshort]
  by_cases hone : f.size=1 ∧ ¬f.ignoreCase
  · rw [if_pos hone]
    obtain ⟨c,hc⟩:=length_eq_one_iff.mp hone.1
    have hkey : f.key=id:=by
      funext x
      exact if_neg hone.2
    have hfirst:=memchr_isFirst d c start (d.length-start)
    rw [hc]
    refine hfirst.congr fun i hi=>?_
    rw [matches_singleton,hkey,Option.map_id,id]
    exact and_congr_left fun _=>by omega
  · rw [if_neg hone]
    exact (skips hf (by omega)).search_isFirst (by omega)

end FastPattern

theorem matches_id {d:Bytes} : Matches id needle d i ↔
    i + needle.length ≤ d.length ∧ (d.drop i).take needle.length=needle:=by
  unfold Matches
  rw [map_id,map_id]

theorem matches_first {d:Bytes} (hne:needle≠[]) (h:Matches id needle d i) :
    d[i]? = some (needle.getD 0 0):=by
  obtain ⟨c,rest,rfl⟩:=exists_cons_of_ne_nil hne
  have hall:=((matches_iff id _ d).mp h).2 0 (Nat.succ_pos _)
  rw [Option.map_id,id,id,Nat.add_zero] at hall
  exact hall

theorem findExactFrom_isFirst {d:Bytes} {fuel cur:ℕ} (hne:needle≠[])
    (hlen:needle.length≤d.length) (hfuel:d.length-needle.length<cur+fuel) :
    IsFirst (Matches id needle d) cur
      (findExactFrom d needle (d.length-needle.length) fuel cur):=by
  have houtside : ∀i,d.length-needle.length < i → ¬Matches id needle d i:=by
    intro i hi hmatch
    have hle:=hmatch.1
    omega
  have hpos:=length_pos_iff.mpr hne
  induction fuel generalizing cur with
  | zero=>exact fun i hi=>houtside i (by omega)
  | succ fuel ih=>
    unfold findExactFrom
    by_cases hcur : cur≤d.length-needle.length
    swap
    · rw [if_neg hcur]
      exact fun i hi=>houtside i (by omega)
    rw [if_pos hcur]
    have hfirst:=memchr_isFirst d (needle.getD 0 0) cur (d.length-needle.length-cur+1)
    -- no match starts before the next place of the first byte
    cases hres : FastPattern.memchr d (needle.getD 0 0) cur
        (d.length-needle.length-cur+1) with
    | none=>
      rw [hres] at hfirst
      intro i hi hmatch
      have hle:=hmatch.1
      exact hfirst i hi ⟨by omega,matches_first hne hmatch⟩
    | some hit=>
      rw [hres] at hfirst
      obtain ⟨⟨hle,hlt,hbyte⟩,hbefore⟩:=hfirst
      have hpast : ∀j,cur≤j → j<hit → ¬Matches id needle d j:=fun j hj hjh hmatch=>
        hbefore j hj hjh ⟨by omega,matches_first hne hmatch⟩
      dsimp only
      by_cases hhere : needle.length=1 ∨ (d.drop hit).take needle.length=needle
      · rw [if_pos hhere]
        have hmatch : Matches id needle d hit:=by
          rw [matches_id]
          refine ⟨by omega,?_⟩
          rcases hhere with hone | hsame
          · obtain ⟨c,rfl⟩:=length_eq_one_iff.mp hone
            have hd : hit<d.length:=by omega
            rw [getElem?_eq_getElem hd] at hbyte
            rw [drop_eq_getElem_cons hd,Option.some.inj hbyte]
            rfl
          · exact hsame
        exact IsFirst.skip hle hpast (isFirst_here hmatch)
      · rw [if_neg hhere]
        refine IsFirst.skip (Nat.le_succ_of_le hle) (fun j hj hjh=>?_) (ih (by omega))
        rcases Nat.lt_succ_iff_lt_or_eq.mp hjh with hlt' | rfl
        · exact hpast j hj hlt'
        · exact fun hmatch=>hhere (Or.inr (matches_id.mp hmatch).2)

theorem findExact_isFirst (d needle:Bytes) (start:ℕ) :
    IsFirst (Matches id needle d) start (findExact d needle start):=by
  unfold findExact
  by_cases hne : needle=[]
  · rw [if_pos hne,hne]
    split_ifs with hstart
    · exact isFirst_here (matches_id.mpr ⟨hstart,take_zero⟩)
    · exact fun i hi hmatch=>absurd hmatch.1 (by change ¬i+0 ≤ d.length;omega)
  rw [if_neg hne]
  by_cases hshort : start > d.length ∨ needle.length > d.length-start
  · rw [if_pos hshort]
    intro i hi hmatch
    have hle:=hmatch.1
    omega
  · rw [if_neg hshort]
    exact findExactFrom_isFirst hne (by omega) (by omega)

theorem patternHits_leftmost {f:FastPattern} {least:ℕ} (d:Bytes) (hf:0<f.size)
    (hleast:least≤f.size) :
    Leftmost (Matches f.key f.pattern d) f.size 0 (patternHits f least d):=by
  unfold patternHits
  rw [Nat.max_eq_right hleast]
  refine hits_leftmost (d.length+1) hf (fun pos=>FastPattern.find_isFirst hf pos)
    (fun i hmatch=>?_) (by omega)
  have hle:=hmatch.1
  omega

theorem searchTreeStreaming_eq (o:SearchOptions) (files:List Bytes) (h:o.needle≠[]) :
    (searchTreeStreaming o files).2=files.map (searchFile o) ∧
      (searchTreeStreaming o files).1.found=((files.map (searchFile o)).map List.length).sum:=by
  unfold searchTreeStreaming
  rw [if_neg h]
  induction files using reverseRecOn with
  | nil=>exact ⟨rfl,rfl⟩
  | append_singleton files d ih=>
    rw [foldl_append,foldl_cons,foldl_nil]
    obtain ⟨hrecorded,hfound⟩:=ih
    dsimp only
    rw [hrecorded,hfound,map_append,map_append,sum_append]
    exact ⟨rfl,rfl⟩

/-- A pattern of a needle that is not empty, each with its first match; `find_exact` with any
needle; and of each file of a search the hits, as they are met from the left. -/
theorem search_exact (c : UInt8) (rest : Bytes) (ignoreCase : Bool) (d : Bytes) :
    (∀ utf16 start, IsFirst (Matches (FastPattern.new (c::rest) ignoreCase utf16).key
        (FastPattern.widened utf16 (c::rest)) d) start
      ((FastPattern.new (c::rest) ignoreCase utf16).find d start)) ∧
    (∀ needle start, IsFirst (Matches id needle d) start (findExact d needle start)) ∧
    (∀ files, (searchTreeStreaming ⟨c::rest,ignoreCase⟩ files).2 =
      files.map (searchFile ⟨c::rest,ignoreCase⟩)) ∧
    ∃ ascii utf16, searchFile ⟨c::rest,ignoreCase⟩ d =
        ascii.map (⟨·,.ascii⟩) ++ utf16.map (⟨·,.utf16le⟩) ∧
      Leftmost (Matches (FastPattern.new (c::rest) ignoreCase false).key
        (FastPattern.widened false (c::rest)) d) (rest.length+1) 0 ascii ∧
      Leftmost (Matches (FastPattern.new (c::rest) ignoreCase true).key
        (FastPattern.widened true (c::rest)) d) (2*(rest.length+1)) 0 utf16 := by
  have hne : c::rest≠[]:=cons_ne_nil c rest
  have hsize : ∀utf16,(FastPattern.new (c::rest) ignoreCase utf16).size =
      (if utf16 then 2 else 1) * (rest.length+1):=fun utf16=>widened_length utf16 (c::rest)
  have hpos : ∀utf16,0<(FastPattern.new (c::rest) ignoreCase utf16).size:=fun utf16=>
    length_pos_iff.mpr (widened_ne_nil hne)
  refine ⟨fun utf16 start=>FastPattern.find_isFirst (hpos utf16) start,
    fun needle start=>findExact_isFirst d needle start,
    fun files=>(searchTreeStreaming_eq _ files hne).1,_,_,rfl,?_,?_⟩
  · have hleft : Leftmost _ _ 0 (patternHits (.new (c::rest) ignoreCase false) 1 d):=
      patternHits_leftmost d (hpos false) (hpos false)
    rwa [hsize false,if_neg Bool.false_ne_true,Nat.one_mul] at hleft
  · have htwo : 2≤(FastPattern.new (c::rest) ignoreCase true).size:=by
      rw [hsize true]
      change 2≤2*(rest.length+1)
      omega
    have hleft:=patternHits_leftmost d (hpos true) htwo
    rwa [hsize true] at hleft

/-- An empty needle matches everywhere in a plain comparison, and is never found. -/
theorem empty_needle_not_found : ¬ ∀(needle d:Bytes) (start:ℕ) (ignoreCase utf16:Bool), IsFirst
      (Matches (FastPattern.new needle ignoreCase utf16).key (FastPattern.widened utf16 needle) d)
      start ((FastPattern.new needle ignoreCase utf16).find d start):=by
  intro h
  have hnone:=h [] [] 0 false false
  exact hnone 0 (Nat.le_refl 0) ⟨Nat.le_refl 0,rfl⟩

example : (FastPattern.new (bytes "Ab") true false).find (bytes "xxaBAb") 0 = some 2:=by decide

end AutoRefirst.Search
