import AutoRefirst.FirstSeen
import AutoRefirst.ZipIngress
import Mathlib.Data.List.TakeWhile

/-!
# What the marks of the inventory keep apart

A safe member shares its case fold with no other member whose path is safe, in whatever order the
members come.
-/

namespace AutoRefirst.Zip
open FirstSeen List Option

theorem pathComponents_ne_nil (p:Bytes) : pathComponents p≠[]:=splitOnP_ne_nil _ p

theorem joinSlash_pathComponents (p:Bytes) : joinSlash (pathComponents p)=p:=
  intercalate_splitOn (byte '/')

def PlainPath (p : Bytes) : Prop := p≠[] ∧ ∀ c ∈ pathComponents p, refusedPart c = false

theorem safeRelativeName_plain {raw:Bytes} {directory:Bool} {maxBytes:ℕ}
    (hdir:directory=false) (h:(safeRelativeName raw directory maxBytes).safe=true) :
    PlainPath (safeRelativeName raw directory maxBytes).normalized:=by
  subst hdir
  unfold safeRelativeName at h ⊢
  split
  · rename_i hraw
    rw [if_pos hraw] at h
    simp at h
  · rename_i hraw
    rw [if_neg hraw] at h
    split
    · rename_i hbyte
      rw [if_pos hbyte] at h
      simp at h
    · rename_i hbyte
      rw [if_neg hbyte] at h
      simp only [Bool.false_eq_true,if_false] at h ⊢
      split
      · rename_i hempty
        rw [if_pos hempty] at h
        simp at h
      · rename_i hempty
        rw [if_neg hempty] at h
        have hall:=List.all_eq_true.mp h
        have hwhole : (pathComponents (raw.map fun c=>if c == byte '\\' then byte '/' else c)
            ).takeWhile (!refusedPart ·) = pathComponents _:=takeWhile_eq_self_iff.mpr hall
        rw [hwhole,joinSlash_pathComponents]
        refine ⟨fun hnil=>hempty (List.isEmpty_iff.mpr hnil),fun c hc=>?_⟩
        simpa using hall c hc

def exactView (e : ContainerMemberIdentity) : Option Bytes×Bool := (markedPath e,e.duplicatePath)

def caseView (e : ContainerMemberIdentity) : Option Bytes×Bool := (markedPath e,e.caseCollision)

@[simp] theorem markedPath_setDuplicate (e:ContainerMemberIdentity) :
    markedPath (setDuplicate e)=markedPath e:=rfl

@[simp] theorem markedPath_setCollision (e:ContainerMemberIdentity) :
    markedPath (setCollision e)=markedPath e:=rfl

theorem map_modify {α β:Type} (f:α→β) (g:α→α) (g':β→β)
    (h:∀a,f (g a)=g' (f a)) (l:List α) (k:ℕ) :
    (l.modify k g).map f=(l.map f).modify k g':=by
  apply ext_getElem?
  intro i
  by_cases hki : k=i <;> cases hi : l[i]? <;> simp [hki,hi,h]

theorem map_modify_same {α β:Type} (f:α→β) (g:α→α) (h:∀a,f (g a)=f a)
    (l:List α) (k:ℕ) : (l.modify k g).map f=l.map f:=by
  apply ext_getElem?
  intro i
  by_cases hki : k=i <;> cases hi : l[i]? <;> simp [hki,hi,h]

def pathsDiffer (q p : Bytes) : Bool := q ≠ p

structure Marked (inv : Inventory) : Prop where
  exact : Kept id (fun _ _ => true) inv.exactSeen (inv.members.map exactView)
  folded : Kept lower pathsDiffer inv.caseSeen (inv.members.map caseView)
  plain : ∀ e∈inv.members, e.safePath=true → e.directory=false → PlainPath e.normalizedPath

theorem marked_empty : Marked {}:=⟨Kept.nil,Kept.nil,fun e he=>absurd he (by simp)⟩

variable {e : ContainerMemberIdentity}

theorem markedPath_some {p:Bytes} (h:markedPath e=some p) : p=e.normalizedPath:=by
  unfold markedPath at h
  split at h
  · exact (some.inj h).symm
  · simp at h

variable {inv : Inventory}

theorem seeExact_kept (h:Kept id (fun _ _=>true) inv.exactSeen (inv.members.map exactView))
    (he:markedPath e=some e.normalizedPath) :
    Kept id (fun _ _=>true) (seeExact inv e).1.exactSeen
      ((seeExact inv e).1.members.map exactView++[exactView (seeExact inv e).2]):=by
  unfold seeExact
  split
  · rename_i k hk
    have hview : exactView (setDuplicate e)=(some e.normalizedPath,true):=by
      rw [exactView,markedPath_setDuplicate,he]
      rfl
    simp only [hview]
    rw [map_modify exactView setDuplicate mark fun _=>rfl]
    exact h.clashes hk
  · rename_i hk
    have hview : exactView e=(some e.normalizedPath,e.duplicatePath):=by rw [exactView,he]
    have hlen : inv.members.length=(inv.members.map exactView).length:=by simp
    simp only [hview,hlen]
    exact h.new hk _

theorem seeExact_frame (inv:Inventory) (e:ContainerMemberIdentity) :
    (seeExact inv e).1.caseSeen=inv.caseSeen ∧
      (seeExact inv e).1.members.map caseView=inv.members.map caseView ∧
      markedPath (seeExact inv e).2=markedPath e ∧
      (seeExact inv e).2.normalizedPath=e.normalizedPath:=by
  unfold seeExact
  split
  · exact ⟨rfl,map_modify_same caseView setDuplicate (fun _=>rfl) _ _,rfl,rfl⟩
  · exact ⟨rfl,rfl,rfl,rfl⟩

theorem seeFolded_kept (h:Kept lower pathsDiffer inv.caseSeen (inv.members.map caseView))
    (he:markedPath e=some e.normalizedPath) :
    Kept lower pathsDiffer (seeFolded inv e).1.caseSeen
      ((seeFolded inv e).1.members.map caseView++[caseView (seeFolded inv e).2]):=by
  unfold seeFolded
  split
  · rename_i k hk
    split
    · have hview : caseView (setCollision e)=(some e.normalizedPath,true):=by
        rw [caseView,markedPath_setCollision,he]
        rfl
      simp only [hview]
      rw [map_modify caseView setCollision mark fun _=>rfl]
      exact h.clashes hk
    · rename_i hsame
      apply h.push
      intro p f hp
      have hpe : p=e.normalizedPath:=by
        have:=congrArg Prod.fst hp
        simpa [caseView,he] using this.symm
      subst hpe
      obtain ⟨q,g,hq,hkey⟩:=h.first _ k hk
      refine ⟨k,q,g,hk,hq,.inl ?_⟩
      rw [getElem?_map] at hq
      obtain ⟨m,hm,hmq⟩:=map_eq_some_iff.mp hq
      have hqm : q=m.normalizedPath:=markedPath_some (congrArg Prod.fst hmq)
      have hpath : m.normalizedPath=e.normalizedPath:=by
        simpa [hm] using hsame
      simp [pathsDiffer,hqm,hpath]
  · rename_i hk
    have hview : caseView e=(some e.normalizedPath,e.caseCollision):=by rw [caseView,he]
    have hlen : inv.members.length=(inv.members.map caseView).length:=by simp
    simp only [hview,hlen]
    exact h.new hk _

theorem seeFolded_frame (inv:Inventory) (e:ContainerMemberIdentity) :
    (seeFolded inv e).1.exactSeen=inv.exactSeen ∧
      (seeFolded inv e).1.members.map exactView=inv.members.map exactView ∧
      exactView (seeFolded inv e).2=exactView e:=by
  unfold seeFolded
  split
  · split
    · exact ⟨rfl,map_modify_same exactView setCollision (fun _=>rfl) _ _,rfl⟩
    · exact ⟨rfl,rfl,rfl⟩
  · exact ⟨rfl,rfl,rfl⟩

def nameOf (e : ContainerMemberIdentity) : Bool×Bool×Bytes :=
  (e.safePath,e.directory,e.normalizedPath)

theorem seeMember_names (inv:Inventory) (e:ContainerMemberIdentity) :
    (seeMember inv e).1.members.map nameOf=inv.members.map nameOf ∧
      nameOf (seeMember inv e).2=nameOf e:=by
  have hexact : (seeExact inv e).1.members.map nameOf=inv.members.map nameOf ∧
      nameOf (seeExact inv e).2=nameOf e:=by
    unfold seeExact
    split
    · exact ⟨map_modify_same nameOf setDuplicate (fun _=>rfl) _ _,rfl⟩
    · exact ⟨rfl,rfl⟩
  have hfolded : ∀(i:Inventory) (x:ContainerMemberIdentity),
      (seeFolded i x).1.members.map nameOf=i.members.map nameOf ∧
        nameOf (seeFolded i x).2=nameOf x:=by
    intro i x
    unfold seeFolded
    split
    · split
      · exact ⟨map_modify_same nameOf setCollision (fun _=>rfl) _ _,rfl⟩
      · exact ⟨rfl,rfl⟩
    · exact ⟨rfl,rfl⟩
  unfold seeMember
  split
  · obtain ⟨h1,h2⟩:=hfolded (seeExact inv e).1 (seeExact inv e).2
    exact ⟨h1.trans hexact.1,h2.trans hexact.2⟩
  · exact ⟨rfl,rfl⟩

theorem plain_of_names {l l':List ContainerMemberIdentity} (h:l'.map nameOf=l.map nameOf)
    (hl:∀e∈l,e.safePath=true → e.directory=false → PlainPath e.normalizedPath) :
    ∀e∈l',e.safePath=true → e.directory=false → PlainPath e.normalizedPath:=by
  intro e he hsafe hdir
  have hmem : nameOf e∈l.map nameOf:=h▸List.mem_map_of_mem he
  obtain ⟨m,hm,hname⟩:=List.mem_map.mp hmem
  obtain ⟨hs,hd,hp⟩ : m.safePath=e.safePath ∧ m.directory=e.directory ∧
      m.normalizedPath=e.normalizedPath:=by simpa [nameOf] using hname
  rw [← hp]
  exact hl m hm (hs.trans hsafe) (hd.trans hdir)

theorem addMember_marked {next:Inventory} (h:Marked inv)
    (he:e.safePath=true → e.directory=false → PlainPath e.normalizedPath)
    (hadd:addMember inv e=.ok next) : Marked next:=by
  unfold addMember at hadd
  split at hadd
  · simp at hadd
  · obtain rfl:=Except.ok.inj hadd
    obtain ⟨hnames,hname⟩:=seeMember_names inv e
    have hplain : ∀m∈(seeMember inv e).1.members++[(seeMember inv e).2],
        m.safePath=true → m.directory=false → PlainPath m.normalizedPath:=by
      apply plain_of_names (l:=inv.members++[e])
      · simp [hnames,hname]
      · intro m hm
        rcases mem_append.mp hm with hm | hm
        · exact h.plain m hm
        · obtain rfl:=mem_singleton.mp hm
          exact he
    unfold seeMember at hplain ⊢
    cases hpath : markedPath e with
    | none=>
      simp only [hpath,isSome_none,Bool.false_eq_true,if_false] at hplain ⊢
      refine ⟨?_,?_,hplain⟩
      · rw [map_append,map_singleton,exactView,hpath]
        exact h.exact.skip _
      · rw [map_append,map_singleton,caseView,hpath]
        exact h.folded.skip _
    | some p=>
      simp only [hpath,isSome_some,if_true] at hplain ⊢
      have he' : markedPath e=some e.normalizedPath:=by rw [hpath,markedPath_some hpath]
      obtain ⟨hseen,hviews,hmarked,hnorm⟩:=seeExact_frame inv e
      obtain ⟨hseen',hviews',hview'⟩:=seeFolded_frame (seeExact inv e).1 (seeExact inv e).2
      refine ⟨?_,?_,hplain⟩
      · rw [map_append,map_singleton]
        simp only [hseen',hviews',hview']
        exact seeExact_kept h.exact he'
      · rw [map_append,map_singleton]
        apply seeFolded_kept
        · rw [hseen,hviews]
          exact h.folded
        · rw [hmarked,hnorm]
          exact he'

theorem inventoryFrom_marked
    {inspect:ℕ→ArchiveFileStat→Except String ContainerMemberIdentity} {lastError:String}
    (hinspect:∀i st e,inspect i st=.ok e →
      e.safePath=true → e.directory=false → PlainPath e.normalizedPath)
    (stats:List (Option ArchiveFileStat)) (i:ℕ) {final:Inventory} (h:Marked inv)
    (hrun:inventoryFrom inspect lastError i inv stats=.ok final) : Marked final:=by
  induction stats generalizing i inv with
  | nil=>
    obtain rfl:=Except.ok.inj hrun
    exact h
  | cons st rest ih=>
    cases st with
    | none=>exact absurd hrun (by simp [inventoryFrom])
    | some st=>
      simp only [inventoryFrom] at hrun
      cases he : inspect i st with
      | error m=>simp [he] at hrun
      | ok e=>
        simp only [he] at hrun
        cases hadd : addMember inv e with
        | error m=>simp [hadd] at hrun
        | ok next=>
          simp only [hadd] at hrun
          exact ih (i+1) (addMember_marked h (hinspect i st e he) hadd) hrun

theorem Marked.apart (h:Marked inv) {i j:ℕ} {a b:ContainerMemberIdentity} {p q:Bytes}
    (hij:i≠j) (ha:inv.members[i]? = some a) (hb:inv.members[j]? = some b)
    (hp:markedPath a=some p) (hq:markedPath b=some q) (hfold:lower p=lower q) :
    a.duplicatePath=true ∨ a.caseCollision=true:=by
  have hexact : ∀ {k:ℕ} {m:ContainerMemberIdentity} {r:Bytes},inv.members[k]? = some m →
      markedPath m=some r → (inv.members.map exactView)[k]? = some (some r,m.duplicatePath):=by
    intro k m r hm hr
    rw [getElem?_map,hm,← hr]
    rfl
  have hcase : ∀ {k:ℕ} {m:ContainerMemberIdentity} {r:Bytes},inv.members[k]? = some m →
      markedPath m=some r → (inv.members.map caseView)[k]? = some (some r,m.caseCollision):=by
    intro k m r hm hr
    rw [getElem?_map,hm,← hr]
    rfl
  -- Of two members with one path, the first of them and every other one are duplicates.
  have hsame : ∀ {k:ℕ} {m:ContainerMemberIdentity},k≠i → inv.members[k]? = some m →
      markedPath m=some p → a.duplicatePath=true:=by
    intro k m hki hm hmp
    obtain ⟨n,r,g,hn,hr,hor⟩:=h.exact.listed i p _ (hexact ha hp)
    obtain ⟨n',r',g',hn',hr',hor'⟩:=h.exact.listed k p _ (hexact hm hmp)
    obtain rfl : n=n':=some.inj (hn.symm.trans hn')
    rcases hor with hni | hno | ⟨hdup,-⟩
    · rcases hor' with hnk | hno | ⟨-,hdup⟩
      · exact absurd (hnk.symm.trans hni) hki
      · simp at hno
      · rw [hni,hexact ha hp] at hr'
        obtain ⟨-,rfl⟩ : p=r' ∧ a.duplicatePath=g':=by simpa using hr'
        exact hdup
    · simp at hno
    · exact hdup
  obtain ⟨k,r,g,hk,hr,hor⟩:=h.folded.listed i p _ (hcase ha hp)
  -- The first of the fold: the other one has its path, or marked it.
  have hfirst : k=i → a.duplicatePath=true ∨ a.caseCollision=true:=by
    intro hki
    obtain ⟨k',r',g',hk',hr',hor'⟩:=h.folded.listed j q _ (hcase hb hq)
    rw [← hfold,hk] at hk'
    obtain rfl:=some.inj hk'
    rw [hki,hcase ha hp] at hr'
    obtain ⟨rfl,rfl⟩ : p=r' ∧ a.caseCollision=g':=by simpa using hr'
    rcases hor' with hkj | hno | ⟨-,hmark⟩
    · exact absurd (hki.symm.trans hkj) hij
    · have hpq : p=q:=by simpa [pathsDiffer] using hno
      exact .inl (hsame (Ne.symm hij) hb (hpq▸hq))
    · exact .inr hmark
  rcases hor with hki | hno | ⟨hmark,-⟩
  · exact hfirst hki
  · by_cases hki : k=i
    · exact hfirst hki
    · have hrp : r=p:=by simpa [pathsDiffer] using hno
      rw [getElem?_map] at hr
      obtain ⟨m,hm,hmr⟩:=map_eq_some_iff.mp hr
      have hmp : markedPath m=some p:=hrp▸congrArg Prod.fst hmr
      exact .inl (hsame hki hm hmp)
  · exact .inr hmark

end AutoRefirst.Zip
