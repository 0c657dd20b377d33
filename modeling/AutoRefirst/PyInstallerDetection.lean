import AutoRefirst.PyInstaller
import AutoRefirst.ByteSearch
import Mathlib.Data.List.MinMax

/-!
# Detection of PyInstaller archives

The search for the cookie of a CArchive passes over most offsets. What it returns is what trying
the cookie at every offset returns, and the table of contents of an archive it returns is tiled by
its entries.
-/

namespace AutoRefirst.PyInstaller
open List SkipSearch ByteRanges Search

def MAGIC : Bytes := bytes "MEI"++[0x0c,0x0b,0x0a,0x0b,0x0e]

def COOKIE_SIZE : ℕ := 88

def be32 (d : Bytes) (o : ℕ) : ℕ :=
  if o+4 > d.length then 0
  else (d.getD o 0).toNat*2^24+(d.getD (o+1) 0).toNat*2^16+(d.getD (o+2) 0).toNat*2^8+
    (d.getD (o+3) 0).toNat

def sane_type (c : UInt8) : Bool := (bytes "bdzZMmsxoln").contains c

/-- The bytes before the first zero. -/
def zstr (n : Bytes) : Bytes := n.takeWhile (· ≠ 0)

def sane_name (n : Bytes) : Bool :=
  n ≠ [] && n.length ≤ 4096 && (zstr n).all (fun c => 0x20 ≤ c || c == 9) && zstr n ≠ []

def clean_name (n : Bytes) : Bytes := zstr n

def clean_lib (n : Bytes) : Bytes :=
  if (zstr n).all fun c => 0x20 ≤ c && c ≤ 0x7e then zstr n else []

/-- The entry at a place and its size. -/
def tocEntry (d : Bytes) (p stop archive_len : ℕ) : Option (ℕ×PyInstEntry) :=
  if p+18 > stop then none
  else
    let el := be32 d p
    let off := be32 d (p+4)
    let cs := be32 d (p+8)
    let cf := (d.getD (p+16) 0).toNat
    let tc := d.getD (p+17) 0
    let nm := slice d (p+18,el-18)
    if el < 18 ∨ p+el > stop ∨ el > 2^20 then none
    else if off > archive_len ∨ off+cs > archive_len then none
    else if cf > 1 ∨ !sane_type tc then none
    else if !sane_name nm then none
    else some (el,⟨off,cs,be32 d (p+12),cf,tc,clean_name nm⟩)

/-- The loop of `parse_toc`; each turn takes fuel. -/
def tocFrom (d : Bytes) (stop archive_len : ℕ) : ℕ → ℕ → Option (List PyInstEntry)
  | 0, _ => none
  | fuel+1, p =>
    if p < stop then do
      let (el,e) ← tocEntry d p stop archive_len
      let rest ← tocFrom d stop archive_len fuel (p+el)
      return e::rest
    else if p = stop then some [] else none

def parse_toc (d : Bytes) (start len archive_len : ℕ) : Option (List PyInstEntry) :=
  if start+len > d.length ∨ len < 18 then none
  else (tocFrom d (start+len) archive_len (len+1) start).filter (· ≠ [])

/-- An archive that is found, with where it is. -/
structure DetectedArchive extends PyInstArchiveInfo where
  (standard_magic heuristic_cookie : Bool := false)
  (cookie_offset archive_end archive_length toc_offset toc_length : ℕ := 0)
  evidence : List String := []
  error : String := ""

def plausibleVersion (pv : ℕ) : Bool := (20 ≤ pv && pv < 100) || (200 ≤ pv && pv < 400)

/-- The lengths in a cookie do not fit together. -/
def badGeometry (d : Bytes) (pos : ℕ) : Bool :=
  let al := be32 d (pos+8)
  let toc := be32 d (pos+12)
  let tl := be32 d (pos+16)
  al < COOKIE_SIZE || al > pos+COOKIE_SIZE || tl < 18 || toc ≥ al || toc+tl > al-COOKIE_SIZE

def cookieEvidence (require_magic : Bool) (pv : ℕ) (lib : Bytes) : List String :=
  ["CArchive TOC parsed and all entry bounds/typecodes validated",
    s!"Python version field is plausible: {pv}",
    if require_magic then "standard MEI cookie magic present"
    else "cookie magic is modified/absent; archive geometry recovered heuristically"]++
    if lib = [] then [] else ["runtime library: "++textOf lib]

def cookie_at (d : Bytes) (pos : ℕ) (require_magic : Bool) : Option DetectedArchive :=
  if pos+COOKIE_SIZE > d.length then none
  else if require_magic && slice d (pos,8) ≠ MAGIC then none
  else
    let al := be32 d (pos+8)
    let toc := be32 d (pos+12)
    let tl := be32 d (pos+16)
    let pv := be32 d (pos+20)
    if badGeometry d pos then none
    else if !plausibleVersion pv then none
    else
      let start := pos+COOKIE_SIZE-al
      match parse_toc d (start+toc) tl al with
      | none => none
      | some entries =>
        if entries.length < 2 then none
        else
          let lib := clean_lib (slice d (pos+24,64))
          some {
            valid:=true,standard_magic:=require_magic,heuristic_cookie := !require_magic
            cookie_offset:=pos,archive_start:=start,archive_end:=pos+COOKIE_SIZE,archive_length:=al
            toc_offset:=toc,toc_length:=tl,python_version:=pv,python_library:=lib,entries
            evidence:=cookieEvidence require_magic pv lib }

/-- The search for the standard magic keeps the last archive. -/
def keepLast (d : Bytes) (last : Option DetectedArchive) (p : ℕ) : Option DetectedArchive :=
  (cookie_at d p true).or last

/-- The best archive with the number of its entries. -/
abbrev Best := Option DetectedArchive×ℕ

def keepBest (best : Best) (r : Option DetectedArchive) : Best :=
  match r with
  | none => best
  | some r => if r.entries.length > best.2 then (some r,r.entries.length) else best

/-- The heuristic search at a zero byte `q`, where a version would start. -/
def tryVersion (d : Bytes) (best : Best) (q : ℕ) : Best :=
  let p := q-20
  if d.getD (p+21) 0 ≠ 0 then best
  else if !plausibleVersion (be32 d (p+20)) then best
  else if badGeometry d p then best
  else keepBest best (cookie_at d p false)

/-- The first offset of the heuristic search. -/
def searchBegin (d : Bytes) : ℕ := if d.length > 64*2^20 then d.length-64*2^20 else 0

def none_found : DetectedArchive := {error := "no structurally valid CArchive found"}

def detect_pyinstaller (d : Bytes) : DetectedArchive :=
  if d.length < COOKIE_SIZE then none_found
  else
    let last_q := d.length-COOKIE_SIZE+20
    match visit (findExact d MAGIC) (d.length-COOKIE_SIZE+1) (keepLast d) (d.length+1) 0 none with
    | some r => r
    | none =>
      (visit (findExact d [0]) (last_q+1) (tryVersion d) (d.length+1) (searchBegin d+20)
        (none,0)).1.getD none_found

/-- The archives whose cookie is at one of the offsets from `a` on. -/
def archivesFrom (d : Bytes) (require_magic : Bool) (a : ℕ) : List DetectedArchive :=
  (range' a (d.length-a)).filterMap (cookie_at d · require_magic)

/-- What trying `cookie_at` at every offset gives: the last archive with the standard magic, else
the first one of the largest among those in the last 64 MiB. -/
def exhaustive (d : Bytes) : DetectedArchive :=
  match (archivesFrom d true 0).getLast? with
  | some r => r
  | none => ((archivesFrom d false (searchBegin d)).argmax (·.entries.length)).getD none_found

/-- The table from `p` on is tiled by the entries, whose data are inside the archive. -/
inductive Toc (d : Bytes) (stop archive_len : ℕ) : ℕ → List PyInstEntry → Prop
  | done : Toc d stop archive_len stop []
  | entry {p : ℕ} {e : PyInstEntry} {rest : List PyInstEntry} : 18 ≤ be32 d p →
      p+be32 d p ≤ stop → e.offset = be32 d (p+4) → e.compressed_size = be32 d (p+8) →
      e.uncompressed_size = be32 d (p+12) → e.name=zstr (slice d (p+18,be32 d p-18)) →
      e.offset+e.compressed_size ≤ archive_len → Toc d stop archive_len (p+be32 d p) rest →
      Toc d stop archive_len p (e::rest)

/-- An archive lies inside the file, its table before its cookie, and the entries tile the
table. -/
structure Archive (d : Bytes) (r : DetectedArchive) : Prop where
  inside : r.archive_end≤d.length
  length : r.archive_start+r.archive_length=r.archive_end
  cookie : r.cookie_offset+COOKIE_SIZE=r.archive_end
  toc : r.toc_offset+r.toc_length+COOKIE_SIZE ≤ r.archive_length
  tiled : Toc d (r.archive_start+r.toc_offset+r.toc_length) r.archive_length
    (r.archive_start+r.toc_offset) r.entries

variable {d : Bytes}

theorem tocEntry_tiles {p stop archive_len el:ℕ} {e:PyInstEntry} {rest:List PyInstEntry}
    (h:tocEntry d p stop archive_len = some (el,e)) (hrest:Toc d stop archive_len (p+el) rest) :
    Toc d stop archive_len p (e::rest):=by
  simp only [tocEntry] at h
  split_ifs at h with hheader hsize hdata hkind hname
  simp only [Option.some.injEq,Prod.mk.injEq] at h
  obtain ⟨rfl,rfl⟩:=h
  exact .entry (by omega) (by omega) rfl rfl rfl rfl (by dsimp only;omega) hrest

theorem tocFrom_tiles {stop archive_len fuel p:ℕ} {es:List PyInstEntry}
    (h:tocFrom d stop archive_len fuel p = some es) : Toc d stop archive_len p es:=by
  induction fuel generalizing p es with
  | zero=>exact nomatch h
  | succ fuel ih=>
    unfold tocFrom at h
    split_ifs at h with hlt hend
    · obtain ⟨⟨el,e⟩,hentry,h⟩:=Option.bind_eq_some_iff.mp h
      obtain ⟨rest,hrest,h⟩:=Option.bind_eq_some_iff.mp h
      cases h
      exact tocEntry_tiles hentry (ih hrest)
    · cases h
      exact hend ▸ .done

theorem parse_toc_tiles {start len archive_len:ℕ} {es:List PyInstEntry}
    (h:parse_toc d start len archive_len = some es) :
    Toc d (start+len) archive_len start es:=by
  unfold parse_toc at h
  split_ifs at h
  exact tocFrom_tiles (Option.filter_eq_some_iff.mp h).1

variable {pos : ℕ} {m : Bool} {r : DetectedArchive}

/-- What a cookie that is accepted says. -/
theorem cookie_at_some (h:cookie_at d pos m = some r) :
    pos+COOKIE_SIZE ≤ d.length ∧ (m=true → slice d (pos,8) = MAGIC) ∧
      badGeometry d pos = false ∧ plausibleVersion (be32 d (pos+20)) = true ∧
      2 ≤ r.entries.length ∧ Archive d r:=by
  simp only [cookie_at] at h
  split_ifs at h with hfits hmagic hgeometry hversion
  split at h
  · cases h
  · next entries hentries=>
    split_ifs at h with hfew
    have hgood:=Bool.eq_false_iff.mpr hgeometry
    cases h
    have hlengths:=hgood
    simp only [badGeometry,Bool.or_eq_false_iff,decide_eq_false_iff_not,Nat.not_lt] at hlengths
    refine ⟨Nat.not_lt.mp hfits,fun hm=>?_,hgood,by simpa using hversion,Nat.not_lt.mp hfew,
      ⟨Nat.not_lt.mp hfits,?_,rfl,?_,parse_toc_tiles hentries⟩⟩
    · subst hm
      simpa using hmagic
    all_goals dsimp only
    all_goals omega

theorem cookie_at_short (h:d.length<pos+COOKIE_SIZE) : cookie_at d pos m = none:=by
  unfold cookie_at
  rw [if_pos h]

/-- The offsets at which a cookie does not fit add nothing. -/
theorem archivesFrom_eq (hd:COOKIE_SIZE≤d.length) (m:Bool) (a:ℕ) : archivesFrom d m a =
      (range' a (d.length-COOKIE_SIZE+1-a)).filterMap (cookie_at d · m):=by
  have hnone : (range' (a+(d.length-COOKIE_SIZE+1-a))
      (d.length-a-(d.length-COOKIE_SIZE+1-a))).filterMap (cookie_at d · m) = []:=by
    refine filterMap_eq_nil_iff.mpr fun i hi=>cookie_at_short ?_
    have hle:=(mem_range'_1.mp hi).1
    omega
  have hsum : d.length-a =
      d.length-COOKIE_SIZE+1-a+(d.length-a-(d.length-COOKIE_SIZE+1-a)):=by
    unfold COOKIE_SIZE at *
    omega
  unfold archivesFrom
  conv_lhs=>rw [hsum,← range'_append_1,filterMap_append,hnone,append_nil]

theorem archivesFrom_short (hd:d.length<COOKIE_SIZE) (m:Bool) (a:ℕ) :
    archivesFrom d m a = []:=
  filterMap_eq_nil_iff.mpr fun _ _=>cookie_at_short (by omega)

theorem foldl_keepLast (l:List ℕ) (last:Option DetectedArchive) :
    l.foldl (keepLast d) last = (l.filterMap (cookie_at d · true)).getLast?.or last:=by
  induction l using List.reverseRecOn with
  | nil=>rfl
  | append_singleton l p ih=>
    rw [foldl_append,ih,filterMap_append,getLast?_append,Option.or_assoc]
    change (cookie_at d p true).or _ = _
    congr 1
    cases hp : cookie_at d p true with
    | none=>simp [hp]
    | some r=>simp [hp]

theorem standard_search (hd:COOKIE_SIZE≤d.length) :
    visit (findExact d MAGIC) (d.length-COOKIE_SIZE+1) (keepLast d) (d.length+1) 0 none =
      (archivesFrom d true 0).getLast? := by
  have hskip : ∀i,0 ≤ i → i<d.length-COOKIE_SIZE+1 → ¬Matches id MAGIC d i →
      ∀last,keepLast d last i = last:=by
    intro i _ _ hno last
    unfold keepLast
    cases hi : cookie_at d i true with
    | none=>exact Option.none_or
    | some r=>
      obtain ⟨hle,hmagic,-⟩:=cookie_at_some hi
      have hfits : i+MAGIC.length≤d.length:=Nat.le_trans (Nat.add_le_add_left (by decide) i) hle
      exact absurd (matches_id.mpr ⟨hfits,hmagic rfl⟩) hno
  rw [visit_eq_foldl (findExact_isFirst d MAGIC) hskip (by unfold COOKIE_SIZE at *; omega),
    foldl_keepLast,archivesFrom_eq hd,Option.or_none,Nat.sub_zero]

/-- A plausible version starts with two zero bytes. -/
theorem version_zeros {p:ℕ} (h:plausibleVersion (be32 d p) = true) :
    p < d.length ∧ d.getD p 0=0 ∧ d.getD (p+1) 0=0:=by
  unfold be32 at h
  split_ifs at h with hshort
  · exact absurd h (by decide)
  · simp only [plausibleVersion,Bool.or_eq_true,Bool.and_eq_true,decide_eq_true_eq] at h
    exact ⟨by omega,UInt8.toNat_inj.mp (by change _=0;omega),
      UInt8.toNat_inj.mp (by change _=0;omega)⟩

/-- The tests in front of `cookie_at` are among its own. -/
theorem tryVersion_eq (d:Bytes) (best:Best) (q:ℕ) :
    tryVersion d best q = keepBest best (cookie_at d (q-20) false):=by
  simp only [tryVersion]
  cases hc : cookie_at d (q-20) false with
  | none=>split_ifs <;> rfl
  | some r=>
    obtain ⟨-,-,hgeometry,hversion,-⟩:=cookie_at_some hc
    have hzero:=(version_zeros hversion).2.2
    rw [if_neg (not_not.mpr hzero),hversion,hgeometry]
    rfl

/-- The number beside the best archive is the number of its entries. -/
def Best.Counted (best : Best) : Prop := best.2 = (best.1.map (·.entries.length)).getD 0

theorem keepBest_some {best:Best} (hbest:best.Counted) (hmany:2 ≤ r.entries.length) :
    (keepBest best (some r)).Counted ∧ (keepBest best (some r)).1 =
      argAux (fun b c=>c.entries.length<b.entries.length) best.1 r:=by
  unfold keepBest
  obtain ⟨o,n⟩:=best
  cases o with
  | none=>
    have hn : n=0:=hbest
    dsimp only
    rw [if_pos (by omega)]
    exact ⟨rfl,rfl⟩
  | some c=>
    have hn : n=c.entries.length:=hbest
    subst hn
    dsimp only [argAux]
    split_ifs
    · exact ⟨rfl,rfl⟩
    · exact ⟨rfl,rfl⟩

theorem foldl_keepBest (l:List ℕ) {best:Best} (hbest:best.Counted) :
    (l.foldl (fun b p=>keepBest b (cookie_at d p false)) best).1 =
      (l.filterMap (cookie_at d · false)).foldl
        (argAux fun b c=>c.entries.length<b.entries.length) best.1:=by
  induction l generalizing best with
  | nil=>rfl
  | cons p l ih=>
    rw [foldl_cons,filterMap_cons]
    cases hp : cookie_at d p false with
    | none=>exact ih hbest
    | some r=>
      obtain ⟨-,-,-,-,hmany,-⟩:=cookie_at_some hp
      obtain ⟨hcounted,harg⟩:=keepBest_some hbest hmany
      rw [ih hcounted,harg]
      rfl

theorem heuristic_search (hd:COOKIE_SIZE≤d.length) :
    (visit (findExact d [0]) (d.length-COOKIE_SIZE+20+1) (tryVersion d) (d.length+1)
      (searchBegin d+20) (none,0)).1 =
      (archivesFrom d false (searchBegin d)).argmax (·.entries.length):=by
  have hskip : ∀q,searchBegin d+20 ≤ q → q<d.length-COOKIE_SIZE+20+1 →
      ¬Matches id [0] d q → ∀best,tryVersion d best q = best:=by
    intro q hq _ hno best
    rw [tryVersion_eq]
    cases hc : cookie_at d (q-20) false with
    | none=>rfl
    | some r=>
      obtain ⟨-,-,-,hversion,-⟩:=cookie_at_some hc
      obtain ⟨hlt,hzero,-⟩:=version_zeros hversion
      rw [Nat.sub_add_cancel (by omega)] at hlt hzero
      refine absurd (matches_id.mpr ⟨hlt,?_⟩) hno
      rw [getD_eq_getElem?_getD,getElem?_eq_getElem hlt] at hzero
      rw [drop_eq_getElem_cons hlt]
      exact congrArg (· :: _) hzero
  have hcount : d.length-COOKIE_SIZE+20+1-(searchBegin d+20) =
      d.length-COOKIE_SIZE+1-searchBegin d:=by omega
  have hshift : range' (searchBegin d+20) (d.length-COOKIE_SIZE+1-searchBegin d) =
      (range' (searchBegin d) (d.length-COOKIE_SIZE+1-searchBegin d)).map (20+·):=by
    rw [map_add_range',Nat.add_comm]
  rw [visit_eq_foldl (findExact_isFirst d [0]) hskip (by unfold COOKIE_SIZE at *; omega),
    hcount,hshift,foldl_map,archivesFrom_eq hd]
  simp only [tryVersion_eq,Nat.add_sub_cancel_left]
  exact foldl_keepBest _ rfl

theorem archive_of_mem {a:ℕ} (h:r ∈ archivesFrom d m a) : Archive d r:=by
  obtain ⟨_,-,hc⟩:=mem_filterMap.mp h
  exact (cookie_at_some hc).2.2.2.2.2

theorem exhaustive_archive (d:Bytes) : exhaustive d = none_found ∨ Archive d (exhaustive d):=by
  unfold exhaustive
  split
  · next r hlast=>exact .inr (archive_of_mem (mem_of_getLast? hlast))
  · cases hbest : (archivesFrom d false (searchBegin d)).argmax (·.entries.length) with
    | none=>exact .inl rfl
    | some r=>exact .inr (archive_of_mem (argmax_mem hbest))

theorem detect_eq_exhaustive (d:Bytes) : detect_pyinstaller d = exhaustive d:=by
  unfold detect_pyinstaller exhaustive
  split_ifs with hd
  · rw [archivesFrom_short hd,archivesFrom_short hd]
    rfl
  · have hd:=Nat.not_lt.mp hd
    dsimp only
    rw [standard_search hd,heuristic_search hd]

/-- The search returns what trying the cookie at every offset returns, and an archive that it
returns lies in the file and has its table tiled by entries with their data inside. -/
theorem detect_exhaustive (d : Bytes) : detect_pyinstaller d = exhaustive d ∧
      (detect_pyinstaller d = none_found ∨ Archive d (detect_pyinstaller d)) := by
  have hsame:=detect_eq_exhaustive d
  exact ⟨hsame,hsame▸exhaustive_archive d⟩

end AutoRefirst.PyInstaller
