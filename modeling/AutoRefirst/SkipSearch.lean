import Mathlib.Data.List.Range

/-!
# Searching with skips

The first place from a start on where a predicate on places holds, found by a search that passes
over places where it is known to fail; the table of skips by the last element of a window; and the
places found by searching again behind each one.
-/

namespace SkipSearch
open List

def IsFirst (P : ℕ→Prop) (start : ℕ) : Option ℕ → Prop
  | none => ∀ i, start ≤ i → ¬P i
  | some i => (start ≤ i ∧ P i) ∧ ∀ j, start ≤ j → j < i → ¬P j

variable {P : ℕ→Prop} {start : ℕ}

theorem IsFirst.congr {Q:ℕ→Prop} {r:Option ℕ} (hPQ:∀i,start ≤ i → (P i ↔ Q i))
    (h:IsFirst P start r) : IsFirst Q start r:=by
  cases r with
  | none=>exact fun i hi hQ=>h i hi ((hPQ i hi).mpr hQ)
  | some i=>
    exact ⟨⟨h.1.1,(hPQ i h.1.1).mp h.1.2⟩,fun j hj hji hQ=>h.2 j hj hji ((hPQ j hj).mpr hQ)⟩

/-- Places where the predicate fails may be passed over. -/
theorem IsFirst.skip {r:Option ℕ} {next:ℕ} (hle:start≤next)
    (hfail:∀j,start≤j → j<next → ¬P j) (h:IsFirst P next r) : IsFirst P start r:=by
  cases r with
  | none=>
    intro i hi
    rcases Nat.lt_or_ge i next with hlt | hge
    · exact hfail i hi hlt
    · exact h i hge
  | some i=>
    refine ⟨⟨Nat.le_trans hle h.1.1,h.1.2⟩,fun j hj hji=>?_⟩
    rcases Nat.lt_or_ge j next with hlt | hge
    · exact hfail j hj hlt
    · exact h.2 j hge hji

theorem isFirst_here (h:P start) : IsFirst P start (some start):=
  ⟨⟨le_rfl,h⟩,fun _ hj hji=>absurd hji (Nat.not_lt.mpr hj)⟩

/-- The search goes on by `skip` while the place is at most `last`; each turn takes fuel. -/
def search (found : ℕ→Bool) (skip : ℕ→ℕ) (inside : ℕ→Bool) : ℕ → ℕ → Option ℕ
  | 0, _ => none
  | fuel+1, i =>
    if inside i then
      if found i then some i else search found skip inside fuel (i + skip i)
    else none

/-- What the predicate, the test, the skips and the limit of a search have in common. -/
structure Skips (P : ℕ→Prop) (found : ℕ→Bool) (skip : ℕ→ℕ) (inside : ℕ→Bool) (stop : ℕ) :
    Prop where
  inside_iff : ∀ i, inside i = true ↔ i<stop
  outside : ∀ i, stop ≤ i → ¬P i
  found_iff : ∀ i, i<stop → (found i = true ↔ P i)
  forward : ∀ i, i<stop → 0 < skip i
  safe : ∀ i j, i<stop → i<j → j < i + skip i → ¬P j

theorem Skips.search_isFirst {found:ℕ→Bool} {skip:ℕ→ℕ} {inside:ℕ→Bool} {stop fuel:ℕ}
    (h:Skips P found skip inside stop) (hfuel:stop<start+fuel) :
    IsFirst P start (search found skip inside fuel start):=by
  induction fuel generalizing start with
  | zero=>exact fun i hi=>h.outside i (by omega)
  | succ fuel ih=>
    unfold search
    by_cases hin : start<stop
    · rw [if_pos ((h.inside_iff start).mpr hin)]
      split_ifs with hfound
      · exact isFirst_here ((h.found_iff start hin).mp hfound)
      · have hpos:=h.forward start hin
        refine IsFirst.skip (by omega) (fun j hj hjs=>?_) (ih (by omega))
        rcases Nat.eq_or_lt_of_le hj with rfl | hlt
        · exact fun hP=>hfound ((h.found_iff _ hin).mpr hP)
        · exact h.safe start j hin hlt hjs
    · rw [if_neg fun hinside=>hin ((h.inside_iff start).mp hinside)]
      exact fun i hi=>h.outside i (by omega)

variable {α β : Type*} (key : α→β) (p d : List α)

/-- The pattern stands at a place, up to the key. -/
def Matches (i : ℕ) : Prop :=
  i + p.length ≤ d.length ∧ ((d.drop i).take p.length).map key = p.map key

instance [DecidableEq β] (i : ℕ) : Decidable (Matches key p d i) := inferInstanceAs (Decidable (_ ∧ _))

variable {i : ℕ}

theorem matches_iff : Matches key p d i ↔
    i + p.length ≤ d.length ∧ ∀j,j<p.length → (d[i+j]?).map key=(p[j]?).map key:=by
  unfold Matches
  refine and_congr_right fun hle=>?_
  constructor
  · intro h j hj
    have hget:=congrArg (·[j]?) h
    rwa [getElem?_map,getElem?_map,getElem?_take_of_lt hj, getElem?_drop] at hget
  · intro h
    refine ext_getElem? fun j=>?_
    rw [getElem?_map,getElem?_map]
    rcases Nat.lt_or_ge j p.length with hj | hj
    · rw [getElem?_take_of_lt hj,getElem?_drop]
      exact h j hj
    · rw [getElem?_eq_none (by rw [length_take];omega),getElem?_eq_none hj]

variable [DecidableEq β]

/-- The comparison of a window from its end. -/
def matchesBack (i : ℕ) : ℕ → Bool
  | 0 => true
  | j+1 => (d[i+j]?).map key == (p[j]?).map key && matchesBack i j

variable {n : ℕ}

theorem matchesBack_iff : matchesBack key p d i n=true ↔
    ∀j,j<n → (d[i+j]?).map key=(p[j]?).map key:=by
  induction n with
  | zero=>exact iff_of_true rfl fun j hj=>absurd hj (Nat.not_lt_zero j)
  | succ n ih=>
    rw [matchesBack,Bool.and_eq_true,beq_iff_eq,ih]
    constructor
    · rintro ⟨hlast,hrest⟩ j hj
      rcases Nat.lt_succ_iff_lt_or_eq.mp hj with hlt | rfl
      · exact hrest j hlt
      · exact hlast
    · exact fun h=>⟨h n (Nat.lt_succ_self n),fun j hj=>h j (Nat.lt_succ_of_lt hj)⟩

/-- The table after the first `n` elements of the pattern: how far the window may go when its last
element has a key. -/
def table : ℕ → β → ℕ
  | 0, _ => max 1 p.length
  | n+1, k => match p[n]? with
    | none => table n k
    | some x => if k = key x then p.length-1-n else table n k

theorem table_pos (hn:n+1≤p.length ∨ n=0) (k:β) : 0<table key p n k:=by
  induction n with
  | zero=>
    change 0 < max 1 p.length
    omega
  | succ n ih=>
    have hrest:=ih (by omega)
    unfold table
    split
    · exact hrest
    · split_ifs
      · omega
      · exact hrest

/-- A later element of the pattern with the key sets a shorter skip. -/
theorem table_le {j:ℕ} {x:α} (hn:n+1≤p.length) (hj:j<n) (hx:p[j]? = some x) :
    table key p n (key x) ≤ p.length-1-j:=by
  induction n with
  | zero=>exact absurd hj (Nat.not_lt_zero j)
  | succ n ih=>
    unfold table
    split
    · next hnone=>
      rw [List.getElem?_eq_none_iff] at hnone
      omega
    · next y hy=>
      split_ifs with hkey
      · omega
      · rcases Nat.lt_succ_iff_lt_or_eq.mp hj with hlt | rfl
        · exact ih (by omega) hlt
        · rw [hx] at hy
          exact absurd (congrArg key (Option.some.inj hy)) hkey

theorem table_le_length (hn:0<p.length) (k:β) : table key p n k≤p.length:=by
  induction n with
  | zero=>
    change max 1 p.length≤p.length
    omega
  | succ n ih=>
    unfold table
    split
    · exact ih
    · split_ifs
      · omega
      · exact ih

variable {key p d}

/-- A place that is passed over would put an element of the pattern with the key of the last
element of the window on it. -/
theorem not_matches_of_skip {j:ℕ} {x:α} (hp:0<p.length) (hx:d[i+p.length-1]? = some x)
    (hij:i<j) (hj:j < i + table key p (p.length-1) (key x)) :
    ¬Matches key p d j:=by
  intro hmatch
  have hall:=((matches_iff key p d).mp hmatch).2
  have hlen:=table_le_length key p (n:=p.length-1) hp (key x)
  have hhere:=hall (i+p.length-1-j) (by omega)
  have hplace : j+(i+p.length-1-j)=i+p.length-1:=by omega
  rw [hplace,hx,Option.map_some] at hhere
  obtain ⟨y,hy,hkey⟩:=Option.map_eq_some_iff.mp hhere.symm
  have hshort:=table_le key p (n:=p.length-1) (by omega) (by omega) hy
  rw [hkey] at hshort
  omega

/-- Every place where the search from behind the last one ends. -/
def hits (find : ℕ→Option ℕ) (step : ℕ) : ℕ → ℕ → List ℕ
  | 0, _ => []
  | fuel+1, pos => match find pos with
    | none => []
    | some i => i :: hits find step fuel (i+step)

/-- The places of `l` satisfy `P`, are `step` apart, and any place from `start` on that satisfies
`P` is less than `step` behind one of them: `l` is what is met from the left without overlap. -/
structure Leftmost (P : ℕ→Prop) (step start : ℕ) (l : List ℕ) : Prop where
  holds : ∀ i∈l, start ≤ i ∧ P i
  apart : l.Pairwise fun i j => i+step≤j
  covers : ∀ i, start ≤ i → P i → ∃ j∈l, j ≤ i ∧ i<j+step

theorem hits_leftmost (stop:ℕ) {find:ℕ→Option ℕ} {step fuel:ℕ} (hstep:0<step)
    (hfind:∀pos,IsFirst P pos (find pos)) (hstop:∀i,P i → i<stop)
    (hfuel:stop<start+fuel) : Leftmost P step start (hits find step fuel start):=by
  induction fuel generalizing start with
  | zero=>
    refine ⟨fun _ hi=>absurd hi not_mem_nil,List.Pairwise.nil,fun i hi hP=>?_⟩
    have:=hstop i hP
    omega
  | succ fuel ih=>
    have hfirst:=hfind start
    unfold hits
    cases hres : find start with
    | none=>
      rw [hres] at hfirst
      exact ⟨fun _ hi=>absurd hi not_mem_nil,List.Pairwise.nil,
        fun i hi hP=>absurd hP (hfirst i hi)⟩
    | some i=>
      rw [hres] at hfirst
      obtain ⟨⟨hle,hP⟩,hbefore⟩:=hfirst
      have hlt:=hstop i hP
      have hrest:=@ih (i+step) (by omega)
      refine ⟨fun x hx=>?_,pairwise_cons.mpr ⟨fun x hx=>(hrest.holds x hx).1,
        hrest.apart⟩,fun x hx hPx=>?_⟩
      · rcases mem_cons.mp hx with rfl | hx
        · exact ⟨hle,hP⟩
        · obtain ⟨hxi,hPx⟩:=hrest.holds x hx
          exact ⟨by omega,hPx⟩
      · rcases Nat.lt_or_ge x i with hxi | hxi
        · exact absurd hPx (hbefore x hx hxi)
        rcases Nat.lt_or_ge x (i+step) with hxs | hxs
        · exact ⟨i,mem_cons_self,hxi,hxs⟩
        · obtain ⟨j,hj,hjx⟩:=hrest.covers x hxs hPx
          exact ⟨j,mem_cons_of_mem i hj,hjx⟩

/-- The loop `for(;;)` over what a search finds: it ends where nothing is found or the place is
past the last one, and goes on behind the place. -/
def visit {β : Type*} (find : ℕ→Option ℕ) (stop : ℕ) (f : β→ℕ→β) : ℕ → ℕ → β → β
  | 0, _, b => b
  | fuel+1, pos, b => match find pos with
    | none => b
    | some i => if stop ≤ i then b else visit find stop f fuel (i+1) (f b i)

theorem foldl_still {β:Type*} {f:β→ℕ→β} {l:List ℕ} (h:∀i∈l,∀b,f b i = b) (b:β) :
    l.foldl f b = b:=by
  induction l with
  | nil=>rfl
  | cons i l ih=>
    rw [foldl_cons,h i mem_cons_self,ih fun j hj=>h j (mem_cons_of_mem i hj)]

/-- A loop over the places of `P` does what one over all places does, where nothing happens at the
other ones. -/
theorem visit_eq_foldl {β:Type*} {find:ℕ→Option ℕ} {stop fuel:ℕ} {f:β→ℕ→β}
    (hfind:∀pos,IsFirst P pos (find pos))
    (hskip:∀i,start ≤ i → i<stop → ¬P i → ∀b,f b i = b)
    (hfuel:stop<start+fuel) (b:β) :
    visit find stop f fuel start b = (range' start (stop-start)).foldl f b:=by
  induction fuel generalizing start b with
  | zero=>
    rw [Nat.sub_eq_zero_of_le (by omega)]
    rfl
  | succ fuel ih=>
    have hfirst:=hfind start
    unfold visit
    cases hres : find start with
    | none=>
      rw [hres] at hfirst
      refine (foldl_still (fun i hi=>?_) b).symm
      obtain ⟨hle,hlt⟩:=mem_range'_1.mp hi
      exact hskip i hle (by omega) (hfirst i hle)
    | some i=>
      rw [hres] at hfirst
      obtain ⟨⟨hle,-⟩,hbefore⟩:=hfirst
      dsimp only
      split_ifs with hstop
      · refine (foldl_still (fun j hj=>?_) b).symm
        obtain ⟨hsj,hj⟩:=mem_range'_1.mp hj
        exact hskip j hsj (by omega) (hbefore j hsj (by omega))
      · have hsplit : range' start (stop-start) =
            range' start (i-start)++i::range' (i+1) (stop-(i+1)):=by
          rw [← range'_succ,show i = start+(i-start) by omega,Nat.add_sub_cancel_left,
            range'_append_1]
          congr 1
          omega
        rw [ih (fun j hj=>hskip j (by omega)) (by omega),hsplit,foldl_append,foldl_cons]
        congr 2
        refine (foldl_still (fun j hj=>?_) b).symm
        obtain ⟨hsj,hj⟩:=mem_range'_1.mp hj
        exact hskip j hsj (by omega) (hbefore j hsj (by omega))

end SkipSearch
