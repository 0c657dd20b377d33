import AutoRefirst.GodotExtraction

/-!
# What extraction of a pack promises

Where the envelopes hold what the directory says and no two entries go to one name, the budget is
kept and every listed file is the payload of its entry.
-/

namespace AutoRefirst.Godot
open CheckedRun List

variable {σ : Type} (C : Ciphers) (K : ScriptDisk σ) (d : Bytes) (key : GodotKeyInfo)

/-- The key of the name an entry is written to, when it comes to be written. -/
def target (dir : DiskPath) (e : GodotPckEntry) : Option DiskPath :=
  if (payloadOf C d key e).1 = none ∨ safePath e.path = [] then none
  else some (outputKey (dir ++ safePath e.path))

/-- The condition on the entries that are neither removals nor deltas: what an envelope holds is
what the directory says, and no two go to names that differ at most by case. -/
structure CleanEntries (dir : DiskPath) (entries : List GodotPckEntry) : Prop where
  sized : ∀ e ∈ present entries, e.encrypted=true → ∀ payload,
    (payloadOf C d key e).1 = some payload → payload.length=e.size ∧ C.md5 payload = e.md5
  apart : ((present entries).filterMap (target C d key dir)).Nodup

structure Extracted (x : ExtractArgs) (s : ExtractState σ) : Prop where
  files : s.result.files = s.listed.map Listed.path
  count : s.result.files.length≤x.maxOutputFiles
  total : s.result.outputBytes=(s.listed.map fun l => l.payload.length).sum
  bytes : s.result.outputBytes≤x.maxOutputBytes
  /-- No rest of the budget was worked out from more than there is. -/
  charged : ∀ b∈s.charged, b≤x.maxOutputBytes
  holds : ∀ l∈s.listed, K.content s.disk (K.place l.path) = some l.payload
  own : ∀ l∈s.listed, (payloadOf C d key l.entry).1 = some l.payload ∧
    l.path = x.dir ++ safePath l.entry.path
  sized : ∀ l∈s.listed, l.entry.encrypted=true →
    l.payload.length = l.entry.size ∧ C.md5 l.payload = l.entry.md5

variable {C K d key} {x : ExtractArgs} {s : ExtractState σ}

theorem Extracted.warn (h:Extracted C K d key x s) (text:String) (e:GodotPckEntry) :
    Extracted C K d key x (warn s text e):=
  ⟨h.files,h.count,h.total,h.bytes,h.charged,h.holds,h.own,h.sized⟩

theorem Extracted.warnIf (h:Extracted C K d key x s) (text:Option String) (e:GodotPckEntry) :
    Extracted C K d key x (warnIf s text e):=by
  cases text with
  | none=>exact h
  | some text=>exact h.warn text e

theorem Extracted.omitEntry (h:Extracted C K d key x s) (e:GodotPckEntry) :
    Extracted C K d key x (omitEntry s e):=
  ⟨h.files,h.count,h.total,h.bytes,h.charged,h.holds,h.own,h.sized⟩

/-- What a script's analysis leaves: the list, the counts of the budget, and the files that were
declared. -/
structure AnalysisKeeps (K : ScriptDisk σ) (declared : List DiskPath) (s t : ExtractState σ) :
    Prop where
  files : t.result.files=s.result.files
  outputBytes : t.result.outputBytes=s.result.outputBytes
  listed : t.listed=s.listed
  charged : t.charged=s.charged
  content : ∀ p, outputKey p ∈ declared →
    K.content t.disk (K.place p) = K.content s.disk (K.place p)

theorem analyzeScript_keeps (declared:List DiskPath) (s:ExtractState σ) (e:GodotPckEntry)
    (p:DiskPath) (payload:Bytes) :
    AnalysisKeeps K declared s (analyzeScript K declared s e p payload):=by
  unfold analyzeScript
  dsimp only
  split
  case isTrue=>exact ⟨rfl,rfl,rfl,rfl,fun _ _=>rfl⟩
  case isFalse hapart=>
    have hdisk : ∀q,outputKey q∈declared →
        K.content (K.materialize s.disk p payload).2 (K.place q) =
          K.content s.disk (K.place q):=by
      intro q hq
      apply K.materialize_other
      intro side hside hplace
      -- a sidecar with a declared name would have been refused
      exact hapart ⟨side,hside,(K.place_key _ _ hplace)▸hq⟩
    split
    · exact ⟨rfl,rfl,rfl,rfl,fun _ _=>rfl⟩
    · split
      · exact ⟨rfl,rfl,rfl,rfl,hdisk⟩
      · exact ⟨rfl,rfl,rfl,rfl,hdisk⟩

variable {declared : List DiskPath}

theorem Extracted.after_analysis {t:ExtractState σ} (h:Extracted C K d key x s)
    (ht:AnalysisKeeps K declared s t) (hdeclared:∀l∈s.listed,outputKey l.path∈declared) :
    Extracted C K d key x t where
  files:=by rw [ht.files,ht.listed,h.files]
  count:=by rw [ht.files];exact h.count
  total:=by rw [ht.outputBytes,ht.listed,h.total]
  bytes:=by rw [ht.outputBytes];exact h.bytes
  charged:=by rw [ht.charged];exact h.charged
  holds:=by
    rw [ht.listed]
    intro l hl
    rw [ht.content l.path (hdeclared l hl),h.holds l hl]
  own:=by rw [ht.listed];exact h.own
  sized:=by rw [ht.listed];exact h.sized

variable {payload : Bytes}

theorem writeFile_ok {s:σ} {p:DiskPath} (h:(writeFile K s p payload).1=true) :
    K.content (writeFile K s p payload).2 (K.place p)=some payload:=
  K.writeFile_content _ _ _ h

theorem writeFile_other {s:σ} {p q:DiskPath} (payload:Bytes) (h:outputKey q≠outputKey p) :
    K.content (writeFile K s p payload).2 (K.place q)=K.content s (K.place q):=by
  have hplace : K.place q≠K.place p:=fun heq=>h (K.place_key _ _ heq)
  rw [writeFile,K.writeFile_other _ _ _ _ hplace,K.createDirectories_content]

/-- What the run relies on at an entry: the names listed so far are not this one's. -/
structure Ready (x : ExtractArgs) (declared : List DiskPath) (s : ExtractState σ)
    (e : GodotPckEntry) (payload : Bytes) : Prop where
  found : (payloadOf C d key e).1 = some payload
  length : payload.length=e.size
  sized : e.encrypted=true → C.md5 payload = e.md5
  apart : ∀ l∈s.listed, outputKey l.path ≠ outputKey (x.dir ++ safePath e.path)
  declared : x.materializeScriptAnalysis=true →
    outputKey (x.dir ++ safePath e.path) ∈ declared ∧ ∀ l∈s.listed, outputKey l.path ∈ declared

variable {e : GodotPckEntry}

theorem Extracted.writeEntry (h:Extracted C K d key x s)
    (hr:@Ready _ C d key x declared s e payload) (hmax:x.maxOutputBytes<2^64)
    (hcount:s.result.files.length<x.maxOutputFiles)
    (hfits:s.result.outputBytes+payload.length≤x.maxOutputBytes) :
    Extracted C K d key x
      (writeEntry K x declared s e (x.dir++safePath e.path) payload):=by
  have hothers : ∀l∈s.listed,
      K.content (writeFile K s.disk (x.dir++safePath e.path) payload).2 (K.place l.path) =
        some l.payload:=fun l hl=>by
    rw [writeFile_other payload (hr.apart l hl),h.holds l hl]
  unfold Godot.writeEntry
  dsimp only
  split
  case isTrue=>
    have hfailed : Extracted C K d key x
        {s with disk:=(writeFile K s.disk (x.dir++safePath e.path) payload).2}:=
      ⟨h.files,h.count,h.total,h.bytes,h.charged,hothers,h.own,h.sized⟩
    exact hfailed.warn _ e
  case isFalse hok=>
    have hwritten : Extracted C K d key x
        { s with
          disk:=(writeFile K s.disk (x.dir++safePath e.path) payload).2
          result:={ s.result with
            files:=s.result.files++[x.dir++safePath e.path]
            outputBytes:=(s.result.outputBytes+payload.length) % 2^64 }
          listed:=s.listed++[⟨e,x.dir++safePath e.path,payload⟩] }:=by
      have hmod : (s.result.outputBytes+payload.length) % 2^64 =
          s.result.outputBytes + payload.length:=Nat.mod_eq_of_lt (by omega)
      refine ⟨?_,?_,?_,?_,h.charged,?_,?_,?_⟩
      · dsimp only
        rw [h.files,map_append]
        rfl
      · dsimp only
        rw [length_append,length_singleton]
        omega
      · dsimp only
        rw [hmod,h.total,map_append,sum_append]
        simp
      · dsimp only
        omega
      · intro l hl
        cases mem_append.mp hl with
        | inl hl=>exact hothers l hl
        | inr hl=>
          rw [mem_singleton.mp hl]
          exact writeFile_ok (by simpa using hok)
      · intro l hl
        cases mem_append.mp hl with
        | inl hl=>exact h.own l hl
        | inr hl=>
          rw [mem_singleton.mp hl]
          exact ⟨hr.found,rfl⟩
      · intro l hl
        cases mem_append.mp hl with
        | inl hl=>exact h.sized l hl
        | inr hl=>
          rw [mem_singleton.mp hl]
          exact fun henc=>⟨hr.length,hr.sized henc⟩
    split
    case isFalse=>exact hwritten
    case isTrue hscript=>
      apply hwritten.after_analysis (analyzeScript_keeps declared _ e _ payload)
      intro l hl
      obtain ⟨hown,hlisted⟩:=hr.declared hscript.1
      cases mem_append.mp hl with
      | inl hl=>exact hlisted l hl
      | inr hl=>
        rw [mem_singleton.mp hl]
        exact hown

def ListedFrom (dir : DiskPath) (e : GodotPckEntry) (before after : List Listed) : Prop :=
  after = before ∨ ∃ payload, target C d key dir e = some (outputKey (dir ++ safePath e.path)) ∧
    after = before++[⟨e,dir ++ safePath e.path,payload⟩]

theorem listed_analyzeScript (declared:List DiskPath) (s:ExtractState σ) (e:GodotPckEntry)
    (p:DiskPath) (payload:Bytes) :
    (analyzeScript K declared s e p payload).listed=s.listed:=
  (analyzeScript_keeps declared s e p payload).listed

theorem listed_writeEntry (x:ExtractArgs) (declared:List DiskPath) (s:ExtractState σ)
    (e:GodotPckEntry) (p:DiskPath) (payload:Bytes) :
    (writeEntry K x declared s e p payload).listed=s.listed ∨
      (writeEntry K x declared s e p payload).listed = s.listed++[⟨e,p,payload⟩]:=by
  unfold Godot.writeEntry
  dsimp only
  split
  · exact .inl rfl
  · split
    · exact .inr (listed_analyzeScript declared _ e p payload)
    · exact .inr rfl

theorem listed_warnIf (s:ExtractState σ) (text:Option String) (e:GodotPckEntry) :
    (warnIf s text e).listed=s.listed:=by
  cases text <;> rfl

theorem listed_omitEntry (s:ExtractState σ) (e:GodotPckEntry) :
    (omitEntry s e).listed=s.listed:=rfl

theorem target_of {dir:DiskPath} (hpayload:(payloadOf C d key e).1=some payload)
    (hpath:safePath e.path≠[]) :
    target C d key dir e=some (outputKey (dir++safePath e.path)):=by
  unfold target
  rw [if_neg (by simp [hpayload,hpath])]

theorem listed_extractEntry (x:ExtractArgs) (declared:List DiskPath) (s:ExtractState σ)
    (e:GodotPckEntry) :
    @ListedFrom C d key x.dir e s.listed
      (extractEntry C K d key x declared s e).listed:=by
  unfold ListedFrom
  fun_cases extractEntry C K d key x declared s e
  case case1=>exact .inl (listed_omitEntry s e)
  case case2=>exact .inl (listed_omitEntry _ e)
  case case3=>exact .inl (listed_warnIf _ _ e)
  case case4=>exact .inl (listed_warnIf _ _ e)
  case case5 _ rest charged _ o warned payload hpayload hpath=>
    have hwarned : warned.listed=s.listed:=listed_warnIf charged o.2 e
    have hwrite:=listed_writeEntry (K:=K) x declared warned e (x.dir++safePath e.path) payload
    rw [hwarned] at hwrite
    cases hwrite with
    | inl h=>exact .inl h
    | inr h=>exact .inr ⟨payload,target_of hpayload hpath,h⟩

theorem payloadOf_plain (hplain:e.encrypted=false) (hrange:e.offset+e.size≤d.length)
    (hd:d.length<2^63) (h:(payloadOf C d key e).1=some payload) :
    payload.length=e.size:=by
  have hmod : (e.offset+e.size) % 2^64 = e.offset+e.size:=Nat.mod_eq_of_lt (by omega)
  have hrun : (extractedPayload C d key e).value = .ok (some ((d.drop e.offset).take e.size),
        if C.md5 ((d.drop e.offset).take e.size) ≠ e.md5 then some "directory MD5 mismatch: "
          else none):=by
    unfold extractedPayload
    rw [if_neg (by simp [hplain])]
    simp only [bind,Run.next,CheckedRun.sum,hmod,if_neg (Nat.not_lt.mpr hrange),CheckedRun.read]
    rfl
  rw [payloadOf,hrun] at h
  rw [← Option.some.inj h,length_take,length_drop]
  omega

theorem sub64_eq {a b:ℕ} (h:b≤a) (ha:a<2^64) : sub64 a b = a-b:=by
  unfold sub64
  omega

structure Between (C : Ciphers) (K : ScriptDisk σ) (d : Bytes) (key : GodotKeyInfo)
    (x : ExtractArgs) (declared : List DiskPath) (rest : List GodotPckEntry)
    (s : ExtractState σ) : Prop where
  extracted : Extracted C K d key x s
  apart : ∀ l∈s.listed, outputKey l.path ∉ rest.filterMap (target C d key x.dir)
  declared : x.materializeScriptAnalysis=true → ∀ l∈s.listed, outputKey l.path ∈ declared

structure EntryOk (C : Ciphers) (d : Bytes) (key : GodotKeyInfo) (x : ExtractArgs)
    (declared : List DiskPath) (e : GodotPckEntry) : Prop where
  range : e.encrypted=false → e.offset+e.size≤d.length
  sized : e.encrypted=true → ∀ payload, (payloadOf C d key e).1 = some payload →
    payload.length = e.size ∧ C.md5 payload = e.md5
  declared : x.materializeScriptAnalysis=true → safePath e.path ≠ [] →
    outputKey (x.dir ++ safePath e.path) ∈ declared

theorem EntryOk.length (he:EntryOk C d key x declared e) (hd:d.length<2^63)
    (h:(payloadOf C d key e).1=some payload) : payload.length=e.size:=by
  cases henc : e.encrypted with
  | false=>exact payloadOf_plain henc (he.range henc) hd h
  | true=>exact (he.sized henc payload h).1

theorem extracted_extractEntry {rest:List GodotPckEntry}
    (h:Between C K d key x declared (e::rest) s) (he:EntryOk C d key x declared e)
    (hd:d.length<2^63) (hmax:x.maxOutputBytes<2^64) :
    Extracted C K d key x (extractEntry C K d key x declared s e):=by
  unfold extractEntry
  split
  case isTrue=>exact h.extracted.omitEntry e
  case isFalse hcount=>
    have hrest : sub64 x.maxOutputBytes s.result.outputBytes =
        x.maxOutputBytes - s.result.outputBytes:=sub64_eq h.extracted.bytes hmax
    have hcharged : Extracted C K d key x
        {s with charged:=s.charged++[s.result.outputBytes]}:=by
      have hall : ∀b∈s.charged++[s.result.outputBytes],b≤x.maxOutputBytes:=by
        intro b hb
        cases mem_append.mp hb with
        | inl hb=>exact h.extracted.charged b hb
        | inr hb=>exact (mem_singleton.mp hb)▸h.extracted.bytes
      exact ⟨h.extracted.files,h.extracted.count,h.extracted.total,h.extracted.bytes,hall,
        h.extracted.holds,h.extracted.own,h.extracted.sized⟩
    dsimp only
    split
    case isTrue=>exact hcharged.omitEntry e
    case isFalse hsize=>
      split
      case h_1=>exact hcharged.warnIf _ e
      case h_2 payload hpayload=>
        split
        case isTrue=>exact (hcharged.warnIf _ e).warn _ e
        case isFalse hpath=>
          have hlength : payload.length=e.size:=he.length hd hpayload
          have htarget : target C d key x.dir e=some (outputKey (x.dir++safePath e.path)):=
            target_of hpayload hpath
          have hready : @Ready _ C d key x declared
              (warnIf {s with charged:=s.charged++[s.result.outputBytes]}
                (payloadOf C d key e).2 e) e payload:=by
            refine ⟨hpayload,hlength,fun henc=>(he.sized henc payload hpayload).2,?_,?_⟩
            · rw [listed_warnIf]
              intro l hl heq
              apply h.apart l hl
              rw [heq,filterMap_cons_some htarget]
              exact mem_cons_self
            · intro hscript
              rw [listed_warnIf]
              exact ⟨he.declared hscript hpath,h.declared hscript⟩
          have hresult : ∀text : Option String,
              (warnIf {s with charged:=s.charged++[s.result.outputBytes]}
                text e).result.files = s.result.files ∧
              (warnIf {s with charged:=s.charged++[s.result.outputBytes]}
                text e).result.outputBytes = s.result.outputBytes:=by
            intro text
            cases text <;> exact ⟨rfl,rfl⟩
          obtain ⟨hfiles,hbytes⟩:=hresult (payloadOf C d key e).2
          have hle:=h.extracted.bytes
          apply (hcharged.warnIf _ e).writeEntry hready hmax
          · rw [hfiles]
            omega
          · rw [hbytes]
            omega

theorem between_extractEntry {rest:List GodotPckEntry}
    (h:Between C K d key x declared (e::rest) s) (he:EntryOk C d key x declared e)
    (hnodup:((e::rest).filterMap (target C d key x.dir)).Nodup) (hd:d.length<2^63)
    (hmax:x.maxOutputBytes<2^64) :
    Between C K d key x declared rest (extractEntry C K d key x declared s e):=by
  have hrest : ∀l∈s.listed,outputKey l.path ∉ rest.filterMap (target C d key x.dir):=by
    intro l hl hmem
    apply h.apart l hl
    rw [filterMap_cons]
    split
    · exact hmem
    · exact mem_cons_of_mem _ hmem
  refine ⟨extracted_extractEntry h he hd hmax,?_,?_⟩
  · cases @listed_extractEntry _ C K d key x declared s e with
    | inl hsame=>
      rw [hsame]
      exact hrest
    | inr hadd=>
      obtain ⟨payload,htarget,hlisted⟩:=hadd
      rw [hlisted]
      intro l hl
      cases mem_append.mp hl with
      | inl hl=>exact hrest l hl
      | inr hl=>
        rw [mem_singleton.mp hl]
        rw [filterMap_cons_some htarget] at hnodup
        exact (nodup_cons.mp hnodup).1
  · intro hscript
    cases @listed_extractEntry _ C K d key x declared s e with
    | inl hsame=>
      rw [hsame]
      exact h.declared hscript
    | inr hadd=>
      obtain ⟨payload,htarget,hlisted⟩:=hadd
      have hpath : safePath e.path≠[]:=by
        intro hnil
        simp [target,hnil] at htarget
      rw [hlisted]
      intro l hl
      cases mem_append.mp hl with
      | inl hl=>exact h.declared hscript l hl
      | inr hl=>
        rw [mem_singleton.mp hl]
        exact he.declared hscript hpath

theorem extracted_foldl {l:List GodotPckEntry} (hd:d.length<2^63)
    (hmax:x.maxOutputBytes<2^64) (hl:∀e∈l,EntryOk C d key x declared e)
    (hnodup:(l.filterMap (target C d key x.dir)).Nodup) (h:Between C K d key x declared l s) :
    Extracted C K d key x (l.foldl (extractEntry C K d key x declared) s):=by
  induction l generalizing s with
  | nil=>exact h.extracted
  | cons e rest ih=>
    have hnext:=between_extractEntry h (hl e mem_cons_self) hnodup hd hmax
    have hrest : (rest.filterMap (target C d key x.dir)).Nodup:=
      hnodup.sublist ((sublist_cons_self e rest).filterMap _)
    exact ih (fun e he=>hl e (mem_cons_of_mem _ he)) hrest hnext

theorem selectedEntries_subset (x:ExtractArgs) (entries:List GodotPckEntry) :
    ∀e∈selectedEntries x entries,e∈present entries:=by
  intro e he
  unfold selectedEntries at he
  split at he
  · exact mem_of_mem_filter ((mem_insertionSort _).mp he)
  · exact he

theorem nodup_selected (x:ExtractArgs) {entries:List GodotPckEntry}
    {f:GodotPckEntry→Option DiskPath} (h:((present entries).filterMap f).Nodup) :
    ((selectedEntries x entries).filterMap f).Nodup:=by
  unfold selectedEntries
  split
  · have hperm:=(perm_insertionSort (fun a b:GodotPckEntry=>
      score x.nativePaths b.path<score x.nativePaths a.path ∨
        (score x.nativePaths a.path=score x.nativePaths b.path ∧ bytesLt b.path a.path=false))
      ((present entries).filter fun e=>score x.nativePaths e.path≠0)).filterMap f
    exact hperm.nodup_iff.mpr (h.sublist (filter_sublist.filterMap f))
  · exact h

theorem Extracted.start {r:GodotExtractResult} (hfiles:r.files=[])
    (hbytes:r.outputBytes=0) (disk:σ) : Extracted C K d key x {disk,result:=r}:=by
  refine ⟨hfiles,?_,hbytes,?_,nofun,nofun,nofun,nofun⟩
  · dsimp only
    rw [hfiles]
    exact Nat.zero_le _
  · dsimp only
    rw [hbytes]
    exact Nat.zero_le _

theorem entryOk_of_clean {entries:List GodotPckEntry} (hranged:∀e∈entries,e.Ranged d.length)
    (hclean:CleanEntries C d key x.dir entries) :
    ∀e∈selectedEntries x entries,EntryOk C d key x (declaredOutputs x entries) e:=by
  intro e he
  have hpresent:=selectedEntries_subset x entries e he
  have hkind : e∈entries ∧ e.removal=false ∧ e.delta=false:=by
    simpa [present] using hpresent
  refine ⟨fun hplain=>hranged e hkind.1 hkind.2.1 hplain hkind.2.2,
    fun henc=>hclean.sized e hpresent henc,fun hscript hpath=>?_⟩
  rw [declaredOutputs,if_pos hscript]
  apply mem_map.mpr
  exact ⟨e,mem_filter.mpr ⟨hpresent,by simpa using hpath⟩,rfl⟩

def memoryDisk : ScriptDisk (DiskPath → Option Bytes) where
  toOutputDisk := OutputDisk.memory fun _ => none
  place := id
  place_key := fun _ _ h => congrArg outputKey h
  analyzed := fun _ => false
  materialize := fun s _ _ => (false,s)
  materialize_other := fun _ _ _ _ _ => rfl

/-- An entry of the first version in a file that begins with the pack: one byte at `at_`. -/
def shortEntry (name : String) (at_ : UInt8) : Bytes :=
  [1,0,0,0] ++ bytes name ++ [at_] ++ List.replicate 7 0 ++ [1] ++ List.replicate 7 0 ++
    List.replicate 16 0

/-- A pack with two entries: the bytes `G` and `D` of its own magic. -/
def twoFiles (first second : String) : Bytes :=
  bytes "GDPC"++[1,0,0,0,3,0,0,0] ++ List.replicate 72 0 ++ [2,0,0,0] ++
    shortEntry first 0 ++ shortEntry second 1

def twoEntries (first second : String) : List GodotPckEntry :=
  [{path:=bytes first,size:=1,md5:=List.replicate 16 0},
   {path:=bytes second,offset:=1,size:=1,md5:=List.replicate 16 0}]

def wholeBudget : ExtractArgs :=
  { dir:=[bytes "out"],materializeScriptAnalysis:=false,coreOnly:=false,
    maxOutputBytes:=100,maxOutputFiles:=10 }

end AutoRefirst.Godot
