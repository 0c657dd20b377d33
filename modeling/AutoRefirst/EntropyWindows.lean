import AutoRefirst.ByteRanges
import Mathlib.Data.List.Induction

/-!
# Histograms that slide

The scan for windows of high entropy moves one histogram over the data, and the memo of ranges
takes the bytes around a range off the histogram of an enclosing one. A decrement of a counter
that is zero fails.
-/

namespace AutoRefirst.EntropyWindows
open List ByteRanges

/-- How often each byte is counted. -/
abbrev EntropyCounts := UInt8→ℕ

def countOf (l : Bytes) : EntropyCounts := fun x => l.count x

def addBytes (h : EntropyCounts) (l : Bytes) : EntropyCounts :=
  l.foldl (fun h x => Function.update h x (h x+1)) h

def dropByte (h : EntropyCounts) (x : UInt8) : Option EntropyCounts :=
  if h x = 0 then none else some (Function.update h x (h x-1))

def dropBytes (h : EntropyCounts) (l : Bytes) : Option EntropyCounts := l.foldlM dropByte h

def W : ℕ := 65536

def S : ℕ := 16384

structure EntropyRange (E : Type) where
  (offset size : ℕ)
  entropy : E

def EntropyRange.stop {E : Type} (r : EntropyRange E) : ℕ := r.offset+r.size

/-- The state of the loop; `cur` is there when `have` is set, and `held` lists the windows that
were judged with the histogram they were judged by. -/
structure EntropyScan (E : Type) where
  hist : EntropyCounts
  (prev_o prev_n : ℕ)
  cur : Option (EntropyRange E) := none
  out : List (EntropyRange E) := []
  held : List (Range×EntropyCounts) := []

section
variable {E : Type} (ent_counts : EntropyCounts→ℕ→E) (high : E→Bool) (max' : E→E→E)

/-- The test of a window. -/
def judge (o n : ℕ) (s : EntropyScan E) : EntropyScan E :=
  let e := ent_counts s.hist n
  let s := {s with held:=s.held++[((o,n),s.hist)]}
  match s.cur with
  | some cur =>
    if high e then
      if o ≤ cur.stop+S then
        {s with cur:=some ⟨cur.offset,max cur.stop (o+n)-cur.offset,max' cur.entropy e⟩}
      else {s with out:=s.out++[cur],cur:=some ⟨o,n,e⟩}
    else if o > cur.stop then {s with out:=s.out++[cur],cur:=none} else s
  | none => if high e then {s with cur:=some ⟨o,n,e⟩} else s

/-- The histogram is moved to the window at `o`. -/
def slide (d : Bytes) (o n : ℕ) (s : EntropyScan E) : Option (EntropyScan E) :=
  if o = 0 then some s
  else do
    let remove_end := min (s.prev_o+S) (s.prev_o+s.prev_n)
    let hist ← dropBytes s.hist (slice d (s.prev_o,remove_end-s.prev_o))
    let old_end := s.prev_o+s.prev_n
    return {s with hist:=addBytes hist (slice d (old_end,o+n-old_end)),prev_o:=o,prev_n:=n}

/-- The loop over the windows; each takes fuel. -/
def windows (d : Bytes) : ℕ → ℕ → EntropyScan E → Option (EntropyScan E)
  | 0, _, _ => none
  | fuel+1, o, s =>
    let n := min W (d.length-o)
    if n < 4096 then some s
    else do
      let s := judge ent_counts high max' o n (← slide d o n s)
      if o+S ≥ d.length then some s else windows d fuel (o+S) s

def scanned (d : Bytes) : Option (EntropyScan E) :=
  let first_n := min W d.length
  windows ent_counts high max' d (d.length+1) 0
    {hist:=addBytes (fun _ => 0) (slice d (0,first_n)),prev_o:=0,prev_n:=first_n}

def scan_entropy_part (d : Bytes) : Option (List (EntropyRange E)) :=
  if d.length < 4096 then some []
  else (scanned ent_counts high max' d).map fun s => s.out++s.cur.toList

end

structure Entry where
  (off size : ℕ)
  counts : EntropyCounts

/-- An entry in place of the enclosing one that is the best so far. -/
def better (off n : ℕ) (parent : Option Entry) (e : Entry) : Option Entry :=
  if e.off ≤ off ∧ n ≤ e.size ∧ off-e.off ≤ e.size-n ∧ e.size-n < n ∧
      ∀ p∈parent, e.size-n < p.size-n then some e else parent

section
variable {E : Type} (entropy_counts : EntropyCounts→ℕ→E) (zero : E)

def get (d : Bytes) (entries : List Entry) (off n : ℕ) : Option (E×List Entry) :=
  if n = 0 then some (zero,entries)
  else match entries.find? fun e => e.off = off && e.size = n with
    | some e => some (entropy_counts e.counts n,entries)
    | none => do
      let counts ← match entries.foldl (better off n) none with
        | some p => do
          let counts ← dropBytes p.counts (slice d (p.off,off-p.off))
          dropBytes counts (slice d (off+n,p.off+p.size-(off+n)))
        | none => some (addBytes (fun _ => 0) (slice d (off,n)))
      return (entropy_counts counts n,entries++[⟨off,n,counts⟩])

/-- The answers to queries one after the other. -/
def answers (d : Bytes) (queries : List Range) : Option (List E×List Entry) :=
  queries.foldlM (fun (out,entries) q => do
    let (e,entries) ← get entropy_counts zero d entries q.1 q.2
    return (out++[e],entries)) ([],[])

end

theorem countOf_cons (x:UInt8) (l:Bytes) :
    countOf (x::l) = Function.update (countOf l) x (countOf l x+1):=by
  funext y
  unfold countOf
  by_cases hy : y=x
  · rw [hy,Function.update_self,count_cons_self]
  · rw [Function.update_of_ne hy,count_cons_of_ne (Ne.symm hy)]

theorem countOf_append_comm (a b:Bytes) : countOf (a++b) = countOf (b++a):=by
  funext y
  unfold countOf
  rw [count_append,count_append,Nat.add_comm]

theorem addBytes_countOf (a b:Bytes) : addBytes (countOf a) b=countOf (a++b):=by
  induction b generalizing a with
  | nil=>rw [append_nil];rfl
  | cons x b ih=>
    have hx : Function.update (countOf a) x (countOf a x+1) = countOf (x::a):=
      (countOf_cons x a).symm
    change addBytes (Function.update (countOf a) x (countOf a x+1)) b=_
    rw [hx,ih,countOf_append_comm a,cons_append,cons_append,countOf_cons,countOf_cons,
      countOf_append_comm]

theorem addBytes_zero (b:Bytes) : addBytes (fun _=>0) b = countOf b:=addBytes_countOf [] b

/-- Bytes that were counted can be taken off. -/
theorem dropBytes_countOf (a b:Bytes) : dropBytes (countOf (a++b)) a=some (countOf b):=by
  induction a with
  | nil=>rfl
  | cons x a ih=>
    have hx : dropByte (countOf (x::(a++b))) x=some (countOf (a++b)):=by
      unfold dropByte
      rw [countOf_cons,Function.update_self,if_neg (Nat.succ_ne_zero _),Function.update_idem,
        Nat.add_sub_cancel,Function.update_eq_self]
    change (dropByte (countOf (x::(a++b))) x).bind (foldlM dropByte · a) = _
    rw [hx]
    exact ih

theorem slice_add (d:Bytes) (o m k:ℕ) :
    slice d (o,m+k) = slice d (o,m)++slice d (o+m,k):=by
  unfold slice
  dsimp only
  rw [take_add,drop_drop]

/-- The windows of the data: one every `S` bytes, while 4096 bytes are left. -/
def IsWindow (d : Bytes) (r : Range) : Prop :=
  S∣r.1 ∧ r.2=min W (d.length-r.1) ∧ 4096 ≤ r.2

variable {E : Type} {ent_counts : EntropyCounts→ℕ→E} {high : E→Bool} {max' : E→E→E} {d : Bytes}
  {s : EntropyScan E} {o n : ℕ}

/-- The histogram is that of the window at `o`. -/
structure Holds (d : Bytes) (o : ℕ) (s : EntropyScan E) : Prop where
  at_o : s.prev_o=o
  size : s.prev_n=min W (d.length-o)
  hist : s.hist=countOf (slice d (o,s.prev_n))

theorem slide_holds (h:Holds d o s) (ho:o+S<d.length) :
    ∃hist,slide d (o+S) (min W (d.length-(o+S))) s =
        some {s with hist,prev_o:=o+S,prev_n:=min W (d.length-(o+S))} ∧
      hist=countOf (slice d (o+S,min W (d.length-(o+S)))):=by
  obtain ⟨hat,hsize,hhist⟩:=h
  have hlen : S+(s.prev_n-S)=s.prev_n:=by
    unfold W S at *
    omega
  have hold : slice d (o,s.prev_n) = slice d (o,S)++slice d (o+S,s.prev_n-S):=by
    rw [← slice_add,hlen]
  have hnew : slice d (o+S,min W (d.length-(o+S))) = slice d (o+S,s.prev_n-S)++
      slice d (o+s.prev_n,o+S+min W (d.length-(o+S))-(o+s.prev_n)):=by
    have hstart : o+s.prev_n=o+S+(s.prev_n-S):=by omega
    have hmore : s.prev_n-S+(o+S+min W (d.length-(o+S))-(o+S+(s.prev_n-S))) =
        min W (d.length-(o+S)):=by
      unfold W S at *
      omega
    rw [hstart,← slice_add,hmore]
  have hremoved : min (s.prev_o+S) (s.prev_o+s.prev_n)-s.prev_o=S:=by
    unfold W S at *
    omega
  refine ⟨_,?_,rfl⟩
  unfold slide
  rw [if_neg (by unfold S;omega)]
  dsimp only
  rw [hremoved,hat,hhist,hold,dropBytes_countOf,hnew,← addBytes_countOf]
  rfl

variable (ent_counts high) in
/-- What holds of the ranges in front of the window at `o`. -/
structure Ranges (d : Bytes) (o : ℕ) (s : EntropyScan E) : Prop where
  apart : (s.out++s.cur.toList).Pairwise fun a b => a.stop<b.offset
  ended : ∀ a∈s.out, a.stop<o
  started : ∀ c∈s.cur, c.offset≤o
  covers : ∀ w∈s.held, high (ent_counts w.2 w.1.2) = true →
    ∃ c∈s.out++s.cur.toList, c.offset≤w.1.1 ∧ w.1.1+w.1.2 ≤ c.stop
  windows : ∀ w∈s.held, IsWindow d w.1 ∧ w.2=countOf (slice d w.1)
  complete : ∀ r, IsWindow d r → r.1<o → ∃ h, (r,h)∈s.held

theorem pairwise_snoc {α:Type} {R:α→α→Prop} {l:List α} {a:α} :
    (l++[a]).Pairwise R ↔ l.Pairwise R ∧ ∀x∈l,R x a:=by
  rw [pairwise_append]
  simp

/-- What the window adds is the same however the ranges go on: they reach over those before, and
over the window when its entropy is high. -/
theorem Ranges.next {out:List (EntropyRange E)} {cur:Option (EntropyRange E)}
    (h:Ranges ent_counts high d o s) (hw:IsWindow d (o,n))
    (hhist:s.hist=countOf (slice d (o,n)))
    (hapart:(out++cur.toList).Pairwise fun a b=>a.stop<b.offset)
    (hended:∀a∈out,a.stop<o+S) (hstarted:∀c∈cur,c.offset≤o+S)
    (hkeep:∀c∈s.out++s.cur.toList,∃c'∈out++cur.toList,c'.offset ≤ c.offset ∧ c.stop ≤ c'.stop)
    (hnew:high (ent_counts s.hist n) = true → ∃c∈out++cur.toList,c.offset≤o ∧ o+n ≤ c.stop) :
    Ranges ent_counts high d (o+S) {s with out,cur,held:=s.held++[((o,n),s.hist)]}:=by
  refine ⟨hapart,hended,hstarted,fun w hmem hhigh=>?_,fun w hmem=>?_,fun r hr hlt=>?_⟩
  · rcases mem_append.mp hmem with hmem | hmem
    · obtain ⟨c,hc,hfrom,hto⟩:=h.covers w hmem hhigh
      obtain ⟨c',hc',hfrom',hto'⟩:=hkeep c hc
      exact ⟨c',hc',Nat.le_trans hfrom' hfrom,Nat.le_trans hto hto'⟩
    · obtain rfl:=mem_singleton.mp hmem
      exact hnew hhigh
  · rcases mem_append.mp hmem with hmem | hmem
    · exact h.windows w hmem
    · exact mem_singleton.mp hmem▸⟨hw,hhist⟩
  -- the window is the only one that starts between `o` and the next
  · by_cases hro : r.1<o
    · obtain ⟨hist,hmem⟩:=h.complete r hr hro
      exact ⟨hist,mem_append_left _ hmem⟩
    · have hsame : r.1=o:=by
        obtain ⟨⟨k,hk⟩,-⟩:=hr
        obtain ⟨⟨j,hj⟩,-⟩:=hw
        unfold S at *
        dsimp only at hj
        omega
      have hpair : r=(o,n):=Prod.ext hsame (by rw [hr.2.1,hw.2.1,hsame])
      exact ⟨s.hist,mem_append_right _ (mem_singleton.mpr (hpair▸rfl))⟩

theorem reaches_itself (l:List (EntropyRange E)) :
    ∀c∈l,∃c'∈l,c'.offset ≤ c.offset ∧ c.stop ≤ c'.stop:=
  fun c hc=>⟨c,hc,Nat.le_refl _,Nat.le_refl _⟩

theorem judge_ranges (h:Ranges ent_counts high d o s) (hw:IsWindow d (o,n))
    (hhist:s.hist=countOf (slice d (o,n))) :
    Ranges ent_counts high d (o+S) (judge ent_counts high max' o n s):=by
  have hended : ∀a∈s.out,a.stop<o+S:=fun a ha=>Nat.lt_add_right S (h.ended a ha)
  have hapart:=h.apart
  have hopened : ∀l : List (EntropyRange E),∃c∈l++[⟨o,n,ent_counts s.hist n⟩],
      c.offset≤o ∧ o+n ≤ c.stop:=fun l=>
    ⟨_,mem_append_right l mem_cons_self,Nat.le_refl _,Nat.le_refl _⟩
  unfold judge
  dsimp only
  cases hcur : s.cur with
  | none=>
    rw [hcur,Option.toList_none,append_nil] at hapart
    dsimp only
    split_ifs with hhigh
    · refine h.next hw hhist (pairwise_snoc.mpr ⟨hapart,h.ended⟩) hended (fun c hc=>?_)
        (fun c hc=>?_) fun _=>hopened _
      · exact Option.some.inj hc▸Nat.le_add_right o S
      · rw [hcur,Option.toList_none,append_nil] at hc
        exact ⟨c,mem_append_left _ hc,Nat.le_refl _,Nat.le_refl _⟩
    · rw [← hcur]
      exact h.next hw hhist h.apart hended (fun c hc=>Nat.le_add_right_of_le (h.started c hc))
        (reaches_itself _) fun hyes=>absurd hyes hhigh
  | some c=>
    rw [hcur,Option.toList_some] at hapart
    have hc:=h.started c hcur
    obtain ⟨hout,hbefore⟩:=pairwise_snoc.mp hapart
    have hold : s.out++s.cur.toList=s.out++[c]:=by rw [hcur,Option.toList_some]
    have hclosed (hpast:c.stop<o) : ∀a∈s.out++[c],a.stop<o:=by
      intro a ha
      rcases mem_append.mp ha with ha | ha
      · exact h.ended a ha
      · exact mem_singleton.mp ha▸hpast
    dsimp only
    split_ifs with hhigh hnear hpast
    · let c' : EntropyRange E:=⟨c.offset,max c.stop (o+n)-c.offset,max' c.entropy (ent_counts s.hist n)⟩
      have hstop : c'.stop = max c.stop (o+n):=by
        change c.offset+(max c.stop (o+n)-c.offset) = _
        omega
      refine h.next hw hhist (pairwise_snoc.mpr ⟨hout,hbefore⟩) hended (fun x hx=>?_) ?_
        fun _=>⟨c',mem_append_right _ mem_cons_self,hc,?_⟩
      · exact Option.some.inj hx▸Nat.le_add_right_of_le hc
      · rw [hold]
        intro x hx
        rcases mem_append.mp hx with hx | hx
        · exact ⟨x,mem_append_left _ hx,Nat.le_refl _,Nat.le_refl _⟩
        · obtain rfl:=mem_singleton.mp hx
          refine ⟨c',mem_append_right _ mem_cons_self,Nat.le_refl _,?_⟩
          rw [hstop]
          exact Nat.le_max_left _ _
      · rw [hstop]
        exact Nat.le_max_right _ _
    · have hpast:=hclosed (by omega)
      refine h.next hw hhist (pairwise_snoc.mpr ⟨hapart,hpast⟩)
        (fun a ha=>Nat.lt_add_right S (hpast a ha)) (fun x hx=>?_) ?_ fun _=>hopened _
      · exact Option.some.inj hx▸Nat.le_add_right o S
      · rw [hold]
        exact fun x hx=>⟨x,mem_append_left _ hx,Nat.le_refl _,Nat.le_refl _⟩
    · have hpast:=hclosed hpast
      refine h.next hw hhist ?_ (fun a ha=>Nat.lt_add_right S (hpast a ha)) nofun ?_
        fun hyes=>absurd hyes hhigh
      · rwa [Option.toList_none,append_nil]
      · rw [hold,Option.toList_none,append_nil]
        exact reaches_itself _
    · rw [← hcur]
      exact h.next hw hhist h.apart hended (fun c hc=>Nat.le_add_right_of_le (h.started c hc))
        (reaches_itself _) fun hyes=>absurd hyes hhigh

variable (ent_counts high max' o n s) in
theorem judge_keeps : (judge ent_counts high max' o n s).hist=s.hist ∧
    (judge ent_counts high max' o n s).prev_o=s.prev_o ∧
    (judge ent_counts high max' o n s).prev_n=s.prev_n:=by
  unfold judge
  dsimp only
  split <;> split_ifs <;> exact ⟨rfl,rfl,rfl⟩

/-- Where no window is left, the ranges are those of the whole data. -/
theorem Ranges.all {p:ℕ} (h:Ranges ent_counts high d o s) (hnone:∀r,IsWindow d r → r.1<o)
    (hle:o≤p) : Ranges ent_counts high d p s where
  apart:=h.apart
  ended a ha:=Nat.lt_of_lt_of_le (h.ended a ha) hle
  started c hc:=Nat.le_trans (h.started c hc) hle
  covers:=h.covers
  windows:=h.windows
  complete r hr _:=h.complete r hr (hnone r hr)

/-- The run of the loop from the window at `o`, to which the histogram can be moved. -/
theorem windows_run {fuel:ℕ} {s':EntropyScan E} (hmul:S∣o) (ho:o<d.length)
    (hfuel:d.length<o+fuel) (hs:Ranges ent_counts high d o s)
    (hslide:slide d o (min W (d.length-o)) s=some s') (h:Holds d o s')
    (hs':Ranges ent_counts high d o s') :
    ∃t,windows ent_counts high max' d fuel o s = some t ∧
      ∃p,d.length≤p ∧ Ranges ent_counts high d p t:=by
  induction fuel generalizing o s s' with
  | zero=>omega
  | succ fuel ih=>
    unfold windows
    dsimp only
    by_cases hshort : min W (d.length-o)<4096
    · rw [if_pos hshort]
      refine ⟨s,rfl,d.length,Nat.le_refl _,hs.all (fun r hr=>?_) (Nat.le_of_lt ho)⟩
      obtain ⟨-,hsize,hlong⟩:=hr
      omega
    rw [if_neg hshort,hslide,Option.bind_eq_bind,Option.bind_some]
    have hw : IsWindow d (o,min W (d.length-o)):=⟨hmul,rfl,Nat.not_lt.mp hshort⟩
    have hnext : Ranges ent_counts high d (o+S) (judge ent_counts high max' o _ s'):=
      judge_ranges hs' hw (by rw [← h.size];exact h.hist)
    split_ifs with hend
    · exact ⟨_,rfl,o+S,hend,hnext⟩
    obtain ⟨hhist,hprev,hsize⟩:=judge_keeps ent_counts high max' s' o (min W (d.length-o))
    have hholds : Holds d o (judge ent_counts high max' o (min W (d.length-o)) s'):=
      ⟨hprev.trans h.at_o,hsize.trans h.size,by rw [hhist,hsize];exact h.hist⟩
    obtain ⟨hist,hmoved,hcount⟩:=slide_holds hholds (Nat.not_le.mp hend)
    exact ih (Nat.dvd_add hmul (Nat.dvd_refl S)) (Nat.not_le.mp hend) (by unfold S;omega) hnext hmoved
      ⟨rfl,rfl,hcount⟩
      ⟨hnext.apart,hnext.ended,hnext.started,hnext.covers,hnext.windows,hnext.complete⟩

variable (ent_counts high) in
theorem ranges_start (d:Bytes) (hist:EntropyCounts) (n:ℕ) :
    Ranges ent_counts high d 0 ⟨hist,0,n,none,[],[]⟩ where
  apart := .nil
  ended _ ha:=absurd ha not_mem_nil
  started _ hc:=nomatch hc
  covers _ hw:=absurd hw not_mem_nil
  windows _ hw:=absurd hw not_mem_nil
  complete _ _ hr:=absurd hr (Nat.not_lt_zero _)

theorem scanned_short (hd:d.length<4096) : scanned ent_counts high max' d =
    some ⟨addBytes (fun _=>0) (slice d (0,min W d.length)),0,min W d.length,none,[],[]⟩:=
  if_pos (by rw [Nat.sub_zero];omega)

theorem scanned_run (d:Bytes) : ∃t,scanned ent_counts high max' d = some t ∧
    ∃p,d.length≤p ∧ Ranges ent_counts high d p t:=by
  have hstart:=ranges_start ent_counts high d
  by_cases hd : d.length=0
  · exact ⟨_,scanned_short (by omega),0,Nat.le_of_eq hd,hstart _ _⟩
  · exact windows_run ⟨0,rfl⟩ (Nat.pos_of_ne_zero hd) (by omega) (hstart _ _) (if_pos rfl)
      ⟨rfl,rfl,addBytes_zero _⟩ (hstart _ _)

variable {entropy_counts : EntropyCounts→ℕ→E} {zero : E} {entries : List Entry}

theorem parent_of {off n:ℕ} {p:Entry} (h:entries.foldl (better off n) none = some p) :
    p∈entries ∧ p.off≤off ∧ n≤p.size ∧ off-p.off≤p.size-n:=by
  induction entries using List.reverseRecOn with
  | nil=>exact nomatch h
  | append_singleton l e ih=>
    rw [foldl_append] at h
    change better off n _ e = some p at h
    unfold better at h
    split_ifs at h with he
    · cases h
      exact ⟨mem_append_right l mem_cons_self,he.1,he.2.1,he.2.2.1⟩
    · obtain ⟨hmem,hrest⟩:=ih h
      exact ⟨mem_append_left _ hmem,hrest⟩

/-- Each entry has the counts of its range. -/
def Exact (d : Bytes) (entries : List Entry) : Prop :=
  ∀ e∈entries, e.counts=countOf (slice d (e.off,e.size))

/-- The entropy of the bytes of a range, counted directly. -/
def direct (entropy_counts : EntropyCounts→ℕ→E) (zero : E) (d : Bytes) (r : Range) : E :=
  if r.2=0 then zero else entropy_counts (countOf (slice d r)) r.2

theorem get_exact (hentries:Exact d entries) (off n:ℕ) :
    ∃entries',get entropy_counts zero d entries off n =
      some (direct entropy_counts zero d (off,n),entries') ∧ Exact d entries':=by
  unfold get direct
  split_ifs with hn
  · exact ⟨entries,rfl,hentries⟩
  cases hfind : entries.find? fun e=>e.off=off && e.size=n with
  | some e=>
    have hsame:=find?_some hfind
    rw [Bool.and_eq_true,decide_eq_true_eq,decide_eq_true_eq] at hsame
    obtain ⟨rfl,rfl⟩:=hsame
    refine ⟨entries,?_,hentries⟩
    rw [← hentries e (mem_of_find?_eq_some hfind)]
  | none=>
    refine ⟨entries++[⟨off,n,countOf (slice d (off,n))⟩],?_,fun e he=>?_⟩
    swap
    · rcases mem_append.mp he with he | he
      · exact hentries e he
      · exact mem_singleton.mp he▸rfl
    cases hparent : entries.foldl (better off n) none with
    | none=>
      dsimp only
      rw [addBytes_zero]
      rfl
    | some p=>
      obtain ⟨hmem,hfrom,hsize,hinside⟩:=parent_of hparent
      have hfront : slice d (p.off,p.size) =
          slice d (p.off,off-p.off)++(slice d (off,n)++slice d (off+n,p.off+p.size-(off+n))):=by
        have hsum : off-p.off+(n+(p.off+p.size-(off+n)))=p.size:=by omega
        have hoff : p.off+(off-p.off)=off:=by omega
        have hadd:=slice_add d p.off (off-p.off) (n+(p.off+p.size-(off+n)))
        rwa [hsum,hoff,slice_add d off n] at hadd
      dsimp only
      rw [hentries p hmem,hfront,dropBytes_countOf,Option.bind_eq_bind,Option.bind_some,
        countOf_append_comm,dropBytes_countOf]
      rfl

theorem answers_exact (d:Bytes) (queries:List Range) :
    ∃entries,answers entropy_counts zero d queries =
      some (queries.map (direct entropy_counts zero d),entries) ∧ Exact d entries:=by
  unfold answers
  induction queries using List.reverseRecOn with
  | nil=>exact ⟨[],rfl,fun _ he=>absurd he not_mem_nil⟩
  | append_singleton l q ih=>
    obtain ⟨entries,hrun,hexact⟩:=ih
    obtain ⟨entries',hget,hexact'⟩:=get_exact hexact q.1 q.2
    refine ⟨entries',?_,hexact'⟩
    rw [foldlM_append,hrun,map_append,map_singleton]
    change ((get entropy_counts zero d entries q.1 q.2).bind _).bind _ = _
    rw [hget]
    rfl

/-- No counter goes below zero in the scan or in the memo. The scan judges each window by the
counts of its bytes, and its ranges are apart from each other, in order, and cover the windows of
high entropy; the memo answers each query by the counts of its range. -/
theorem histograms_exact (ent_counts : EntropyCounts→ℕ→E) (high : E→Bool) (max' : E→E→E)
    (entropy_counts : EntropyCounts→ℕ→E) (zero : E) (d : Bytes) :
    (∃ s, scanned ent_counts high max' d = some s ∧
      (∀ w∈s.held, w.2=countOf (slice d w.1)) ∧ (∀ r, IsWindow d r ↔ ∃ h, (r,h)∈s.held) ∧
      ∃ out, scan_entropy_part ent_counts high max' d = some out ∧
        (out.Pairwise fun a b => a.stop<b.offset) ∧
        ∀ r, IsWindow d r → high (ent_counts (countOf (slice d r)) r.2) = true →
          ∃ c∈out, c.offset ≤ r.1 ∧ r.1+r.2 ≤ c.stop) ∧
    ∀ queries, ∃ entries, answers entropy_counts zero d queries =
      some (queries.map (direct entropy_counts zero d),entries) ∧ Exact d entries := by
  obtain ⟨s,hs,p,hp,hr⟩ : ∃t,scanned ent_counts high max' d = some t ∧
    ∃p,d.length≤p ∧ Ranges ent_counts high d p t:=scanned_run d
  have hall : ∀r,IsWindow d r → ∃h,(r,h)∈s.held:=by
    intro r hw
    obtain ⟨-,hsize,hlong⟩:=id hw
    exact hr.complete r hw (by omega)
  refine ⟨⟨s,hs,fun w hw=>(hr.windows w hw).2,fun r=>⟨hall r,fun ⟨_,hmem⟩=>
    (hr.windows _ hmem).1⟩,s.out++s.cur.toList,?_,hr.apart,fun r hw hhigh=>?_⟩,answers_exact d⟩
  · unfold scan_entropy_part
    split_ifs with hshort
    · rw [scanned_short hshort] at hs
      cases hs
      rfl
    · rw [hs]
      rfl
  · obtain ⟨h,hmem⟩:=hall r hw
    have hcount:=(hr.windows _ hmem).2
    exact hr.covers _ hmem (hcount▸hhigh)

end AutoRefirst.EntropyWindows
