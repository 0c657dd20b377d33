import AutoRefirst.RelationshipPasses
import Mathlib.Algebra.Order.BigOperators.Group.List
import Mathlib.Algebra.Ring.Int.Defs

/-!
# Weak relationships cannot promote

The score of a candidate grows by the priority deltas of the relationships it is an endpoint
of, and by nothing else. Only confirmed application relations are exempt from the cap and
from the threshold of 100.
-/

namespace AutoRefirst.DirectoryRelationships
open List Option

namespace DirectoryCandidate

variable {c : DirectoryCandidate} {requested cap actual : ℤ} {strong : Bool} {reason : String}

theorem actualBoost_nonneg : 0 ≤ c.actualBoost requested strong cap:=by
  unfold actualBoost
  dsimp only
  split_ifs <;> omega

theorem actualBoost_of_nonpos (h:requested≤0) : c.actualBoost requested strong cap=0:=by
  simp [actualBoost,h]

theorem weak_actualBoost_le (h:0<c.actualBoost requested false cap) :
    c.relationshipPriorityBoost + c.actualBoost requested false cap ≤ cap:=by
  unfold actualBoost at h ⊢
  simp only [Bool.false_eq_true,if_false] at h ⊢
  split_ifs at h ⊢ <;> omega

theorem weak_actualBoost_below (h:c.priorityScore<100) :
    c.priorityScore + c.actualBoost requested false cap<100:=by
  unfold actualBoost
  simp only [Bool.false_eq_true,if_false,if_pos h]
  split_ifs <;> omega

@[simp] theorem boost_path : (c.boost actual reason).path=c.path:=by
  unfold boost
  split_ifs <;> rfl

@[simp] theorem boost_relationshipPriorityBoost :
    (c.boost actual reason).relationshipPriorityBoost = c.relationshipPriorityBoost+actual:=by
  unfold boost
  split_ifs with h
  · omega
  · rfl

@[simp] theorem boost_priorityScore :
    (c.boost actual reason).priorityScore = c.priorityScore+actual:=by
  unfold boost
  split_ifs with h
  · omega
  · rfl

theorem boost_priorityTier (h:actual≠0) :
    (c.boost actual reason).priorityTier=tierOf (c.boost actual reason).priorityScore:=by
  unfold boost
  rw [if_neg h]
  rfl

end DirectoryCandidate

/-- What boosts of one kind do to a candidate: `δ` is what they add up to. -/
structure Raised (strong : Bool) (cap : ℤ) (c c' : DirectoryCandidate) (δ : ℤ) : Prop where
  path : c'.path=c.path
  score : c'.priorityScore=c.priorityScore+δ
  boost : c'.relationshipPriorityBoost=c.relationshipPriorityBoost+δ
  nonneg : 0≤δ
  capped : strong=false → 0<δ → c'.relationshipPriorityBoost ≤ cap
  below : strong=false → c.priorityScore<100 → c'.priorityScore<100
  tier : δ=0 ∧ c'.priorityTier=c.priorityTier ∨ c'.priorityTier = tierOf c'.priorityScore

namespace Raised

variable {strong : Bool} {cap δ ε : ℤ} {c c' c'' : DirectoryCandidate}

theorem same (hpath:c'.path=c.path) (hscore:c'.priorityScore=c.priorityScore)
    (hboost:c'.relationshipPriorityBoost=c.relationshipPriorityBoost)
    (htier:c'.priorityTier=c.priorityTier) : Raised strong cap c c' 0:=
  ⟨hpath,by omega,by omega,le_refl 0,fun _ h=>absurd h (lt_irrefl 0),
    fun _ h=>by omega,.inl ⟨rfl,htier⟩⟩

theorem refl : Raised strong cap c c 0:=same rfl rfl rfl rfl

theorem of_boost {requested:ℤ} {reason:String} :
    Raised strong cap c (c.boost (c.actualBoost requested strong cap) reason)
      (c.actualBoost requested strong cap):=by
  refine ⟨by simp,by simp,by simp,DirectoryCandidate.actualBoost_nonneg,?_,?_,?_⟩
  · rintro rfl h
    simpa using DirectoryCandidate.weak_actualBoost_le h
  · rintro rfl h
    simpa using DirectoryCandidate.weak_actualBoost_below h
  · by_cases h : c.actualBoost requested strong cap=0
    · exact .inl ⟨h,by simp [h,DirectoryCandidate.boost]⟩
    · exact .inr (DirectoryCandidate.boost_priorityTier h)

theorem trans (h:Raised strong cap c c' δ) (h':Raised strong cap c' c'' ε) :
    Raised strong cap c c'' (δ+ε):=by
  have hδ:=h.nonneg
  have hε:=h'.nonneg
  refine ⟨h'.path.trans h.path,?_,?_,by omega,?_,?_,?_⟩
  · rw [h'.score,h.score]
    omega
  · rw [h'.boost,h.boost]
    omega
  · intro hs hpos
    by_cases hz : ε=0
    · have hb:=h'.boost
      have hc:=h.capped hs (by omega)
      omega
    · exact h'.capped hs (by omega)
  · intro hs hlt
    exact h'.below hs (h.below hs hlt)
  · rcases h'.tier with ⟨hz,ht⟩ | ht
    · rcases h.tier with ⟨hz',ht'⟩ | ht'
      · exact .inl ⟨by omega,ht.trans ht'⟩
      · right
        rw [ht,ht',h'.score,hz,Int.add_zero]
    · exact .inr ht

end Raised

namespace Build

variable {b : Build} {i : Option ℕ} {p : NativePath} {e : Emission} {requested : ℤ}

@[simp] theorem modifyCandidate_candidates (b:Build) (i:ℕ)
    (f:DirectoryCandidate→DirectoryCandidate) :
    (b.modifyCandidate i f).plan.candidates=b.plan.candidates.modify i f:=rfl

@[simp] theorem pushRelationship_relationships (b:Build) (x:DirectoryRelationship) :
    (b.pushRelationship x).plan.relationships = b.plan.relationships++[x]:=rfl

end Build

/-- A step of the build that touches the candidates and the counters only. -/
structure Frame (b b' : Build) : Prop where
  seen : b'.seen=b.seen
  reports : b'.reports=b.reports
  relationships : b'.plan.relationships=b.plan.relationships
  maxRelationships : b'.plan.maxRelationships=b.plan.maxRelationships
  exhausted : b'.plan.relationshipBudgetExhausted=b.plan.relationshipBudgetExhausted
  omitted : b'.plan.relationshipOmittedCount=b.plan.relationshipOmittedCount
  candidates : b'.plan.candidates.length=b.plan.candidates.length

namespace Frame

variable {b b' b'' : Build}

theorem refl : Frame b b:=⟨rfl,rfl,rfl,rfl,rfl,rfl,rfl⟩

theorem trans (h:Frame b b') (h':Frame b' b'') : Frame b b'':=
  ⟨h'.seen.trans h.seen,h'.reports.trans h.reports,h'.relationships.trans h.relationships,
    h'.maxRelationships.trans h.maxRelationships,h'.exhausted.trans h.exhausted,
    h'.omitted.trans h.omitted,h'.candidates.trans h.candidates⟩

theorem modifyCandidate {i:ℕ} {f:DirectoryCandidate→DirectoryCandidate} :
    Frame b (b.modifyCandidate i f):=
  ⟨rfl,rfl,rfl,rfl,rfl,rfl,by simp⟩

theorem addRelatedBounded {i:Option ℕ} {p:NativePath} : Frame b (b.addRelatedBounded i p):=by
  unfold Build.addRelatedBounded
  split
  · exact refl
  split
  · exact refl
  split_ifs
  · exact refl
  · exact ⟨rfl,rfl,rfl,rfl,rfl,rfl,rfl⟩
  · exact modifyCandidate

theorem applyBoost {i:Option ℕ} {requested:ℤ} {e:Emission} :
    Frame b (b.applyBoost i requested e).1:=by
  unfold Build.applyBoost
  split
  · exact refl
  split
  · exact refl
  dsimp only
  split_ifs
  · exact refl
  · exact modifyCandidate

end Frame

def RaisedBy (strong : Bool) (cap : ℤ) (b b' : Build) (δ : ℕ→ℤ) : Prop :=
  ∀ j c', b'.plan.candidates[j]? = some c' →
    ∃ c, b.plan.candidates[j]? = some c ∧ Raised strong cap c c' (δ j)

namespace RaisedBy

variable {strong : Bool} {cap : ℤ} {b b' b'' : Build} {δ ε : ℕ→ℤ}

theorem of_eq (h:b'.plan.candidates=b.plan.candidates) (hδ:∀j,δ j=0) :
    RaisedBy strong cap b b' δ:=by
  intro j c' hc'
  rw [h] at hc'
  rw [hδ j]
  exact ⟨c',hc',.refl⟩

theorem trans (h:RaisedBy strong cap b b' δ) (h':RaisedBy strong cap b' b'' ε) :
    RaisedBy strong cap b b'' fun j=>δ j + ε j:=by
  intro j c'' hc''
  obtain ⟨c',hc',hr'⟩:=h' j c'' hc''
  obtain ⟨c,hc,hr⟩:=h j c' hc'
  exact ⟨c,hc,hr.trans hr'⟩

theorem of_modify {i:ℕ} {f:DirectoryCandidate→DirectoryCandidate}
    (h:b'.plan.candidates=b.plan.candidates.modify i f)
    (hi:∀c,b.plan.candidates[i]? = some c → Raised strong cap c (f c) (δ i))
    (hδ:∀j,i≠j → δ j=0) : RaisedBy strong cap b b' δ:=by
  intro j c' hc'
  rw [h,getElem?_modify] at hc'
  obtain ⟨c,hc,rfl⟩:=map_eq_some_iff.mp hc'
  refine ⟨c,hc,?_⟩
  by_cases hij : i=j
  · subst hij
    simpa using hi c hc
  · rw [hδ j hij]
    simpa [hij] using Raised.refl

end RaisedBy

namespace Build

variable {b : Build} {i : Option ℕ} {p : NativePath} {e : Emission} {requested : ℤ}

/-- Related files are no part of the priority of a candidate. -/
theorem addRelatedBounded_raisedBy {strong:Bool} {cap:ℤ} :
    RaisedBy strong cap b (b.addRelatedBounded i p) fun _=>0:=by
  unfold addRelatedBounded
  split
  · exact .of_eq rfl fun _=>rfl
  split
  · exact .of_eq rfl fun _=>rfl
  split_ifs
  · exact .of_eq rfl fun _=>rfl
  · exact .of_eq rfl fun _=>rfl
  · exact .of_modify rfl (fun c _ => .same rfl rfl rfl rfl) fun _ _=>rfl

theorem applyBoost_raisedBy :
    RaisedBy e.strongPriority e.relationshipCap b (b.applyBoost i requested e).1
      fun j=>if i = some j then (b.applyBoost i requested e).2 else 0:=by
  unfold applyBoost
  split
  · exact .of_eq rfl fun j=>by simp
  split
  · exact .of_eq rfl fun j=>by simp
  · rename_i i _ c hc
    dsimp only
    split_ifs with hz
    · exact .of_eq rfl fun j=>by simp
    · apply RaisedBy.of_modify (i:=i) rfl
      · intro c' hc'
        obtain rfl : c=c':=some.inj (hc.symm.trans hc')
        simpa using Raised.of_boost
      · intro j hij
        simp [hij]

theorem applyBoost_nonneg : 0≤(b.applyBoost i requested e).2:=by
  unfold applyBoost
  split
  · exact le_refl 0
  split
  · exact le_refl 0
  dsimp only
  split_ifs
  · exact le_refl 0
  · exact DirectoryCandidate.actualBoost_nonneg

theorem applyBoost_of_nonpos (h:requested≤0) : (b.applyBoost i requested e).2=0:=by
  unfold applyBoost
  split
  · rfl
  split
  · rfl
  · simp [DirectoryCandidate.actualBoost_of_nonpos h]

end Build

/-- What a relationship adds to the score of a candidate. -/
def boostOn (v : View) (i : ℕ) (x : DirectoryRelationship) : ℤ :=
  (if v.index (v.key x.first) = some i then x.firstPriorityDelta else 0) +
    (if v.index (v.key x.second) = some i then x.secondPriorityDelta else 0)

/-- What happens when a relationship is recorded: `x` is the emitted relation with the
deltas it really got. -/
structure Recorded (v : View) (b : Build) (e : Emission) (b' : Build) (x : DirectoryRelationship) :
    Prop where
  relation : ∃ first second, x =
    {e.relation with firstPriorityDelta:=first,secondPriorityDelta:=second}
  nonneg : 0≤x.firstPriorityDelta ∧ 0≤x.secondPriorityDelta
  asked : (e.boostFirst≤0 → x.firstPriorityDelta=0) ∧
    (e.boostSecond≤0 → x.secondPriorityDelta=0)
  raised : RaisedBy e.strongPriority e.relationshipCap b b' fun j => boostOn v j x
  relationships : b'.plan.relationships=b.plan.relationships++[x]
  maxRelationships : b'.plan.maxRelationships=b.plan.maxRelationships
  exhausted : b'.plan.relationshipBudgetExhausted=b.plan.relationshipBudgetExhausted
  omitted : b'.plan.relationshipOmittedCount=b.plan.relationshipOmittedCount
  candidates : b'.plan.candidates.length=b.plan.candidates.length
  seen : b'.seen=b.seen
  reports : b'.reports=b.reports

theorem Build.record_recorded (v:View) (b:Build) (e:Emission) :
    ∃x,Recorded v b e (b.record v e) x:=by
  unfold Build.record
  dsimp only
  generalize hai : v.index (v.key e.relation.first)=ai
  generalize hbi : v.index (v.key e.relation.second)=bi
  generalize hb1 : b.addRelatedBounded ai e.relation.second=b1
  generalize hb2 : b1.addRelatedBounded bi e.relation.first=b2
  generalize hb3 : b2.applyBoost ai e.boostFirst e=b3
  generalize hb4 : b3.1.applyBoost bi e.boostSecond e=b4
  have hframe : Frame b b4.1:=by
    rw [← hb4,← hb3,← hb2,← hb1]
    exact ((Frame.addRelatedBounded.trans .addRelatedBounded).trans .applyBoost).trans .applyBoost
  have hrelated : RaisedBy e.strongPriority e.relationshipCap b b2 fun _=>0:=by
    rw [← hb2,← hb1]
    exact addRelatedBounded_raisedBy.trans addRelatedBounded_raisedBy
  have hfirst : RaisedBy e.strongPriority e.relationshipCap b2 b3.1
      fun j=>if ai = some j then b3.2 else 0:=by
    rw [← hb3]
    exact applyBoost_raisedBy
  have hsecond : RaisedBy e.strongPriority e.relationshipCap b3.1 b4.1
      fun j=>if bi = some j then b4.2 else 0:=by
    rw [← hb4]
    exact applyBoost_raisedBy
  refine ⟨_,⟨b3.2,b4.2,rfl⟩,?_,?_,?_,?_,hframe.maxRelationships,hframe.exhausted,
    hframe.omitted,hframe.candidates,hframe.seen,hframe.reports⟩
  · rw [← hb4,← hb3]
    exact ⟨applyBoost_nonneg,applyBoost_nonneg⟩
  · rw [← hb4,← hb3]
    exact ⟨applyBoost_of_nonpos,applyBoost_of_nonpos⟩
  · intro j c' hc'
    obtain ⟨c,hc,hr⟩:=((hrelated.trans hfirst).trans hsecond) j c' hc'
    refine ⟨c,hc,?_⟩
    simpa [boostOn,hai,hbi] using hr
  · rw [pushRelationship_relationships,hframe.relationships]

/-- The build after an emission that found the list full. -/
def Build.omit (b : Build) (key : String) : Build :=
  { b with
    seen:=b.seen++[key]
    plan:={ b.plan with
      relationshipBudgetExhausted:=true
      relationshipOmittedCount:=b.plan.relationshipOmittedCount+1 } }

theorem Build.emit_cases (v:View) (b:Build) (e:Emission) :
    (b.emit v e=b ∧ (selfLoop v.fs e.relation=false → relationshipKey v.fs e.relation∈b.seen)) ∨
    (b.emit v e=b.omit (relationshipKey v.fs e.relation) ∧
      relationshipKey v.fs e.relation ∉ b.seen ∧
      b.plan.maxRelationships≤b.plan.relationships.length) ∨
    ∃x,Recorded v {b with seen:=b.seen++[relationshipKey v.fs e.relation]} e.gate
        (b.emit v e) x ∧
      selfLoop v.fs x=false ∧ relationshipKey v.fs x=relationshipKey v.fs e.relation ∧
      relationshipKey v.fs x ∉ b.seen ∧
      b.plan.relationships.length<b.plan.maxRelationships:=by
  have hkey : relationshipKey v.fs e.gate.relation=relationshipKey v.fs e.relation:=rfl
  unfold Build.emit
  dsimp only
  rw [hkey]
  split_ifs with hloop hseen hmax
  · exact .inl ⟨rfl,fun h=>absurd hloop (by simp [h])⟩
  · exact .inl ⟨rfl,fun _=>hseen⟩
  · exact .inr (.inl ⟨rfl,hseen,hmax⟩)
  · obtain ⟨x,hx⟩:=Build.record_recorded v
      {b with seen:=b.seen++[relationshipKey v.fs e.relation]} e.gate
    obtain ⟨first,second,hrel⟩:=hx.relation
    refine .inr (.inr ⟨x,hx,?_,?_,?_,by omega⟩)
    · rw [hrel]
      simpa [selfLoop,Emission.gate] using hloop
    · rw [hrel]
      rfl
    · rw [hrel]
      exact hseen

/-- The relationships so far: bounded, without self-loops, and each key once. -/
structure ListInvariant (v : View) (b : Build) : Prop where
  maxRelationships : b.plan.maxRelationships=v.plan.maxRelationships
  length : b.plan.relationships.length≤v.plan.maxRelationships
  selfLoop : ∀ x∈b.plan.relationships, selfLoop v.fs x = false
  keys : (b.plan.relationships.map (relationshipKey v.fs)).Nodup
  seen : ∀ x∈b.plan.relationships, relationshipKey v.fs x ∈ b.seen

theorem ListInvariant.emit {v:View} {b:Build} (h:ListInvariant v b) (e:Emission) :
    ListInvariant v (b.emit v e):=by
  rcases b.emit_cases v e with ⟨hb,-⟩ | ⟨hb,-⟩ | ⟨x,hx,hloop,hkey,hnew,hlt⟩
  · rw [hb]
    exact h
  · rw [hb]
    exact ⟨h.maxRelationships,h.length,h.selfLoop,h.keys, fun x hx=>mem_append_left _ (h.seen x hx)⟩
  · have hlist : (b.emit v e).plan.relationships=b.plan.relationships++[x]:=hx.relationships
    refine ⟨hx.maxRelationships.trans h.maxRelationships,?_,?_,?_,?_⟩
    · rw [hlist,length_append,length_singleton,← h.maxRelationships]
      omega
    · rw [hlist]
      intro y hy
      rcases mem_append.mp hy with hy | hy
      · exact h.selfLoop y hy
      · rw [mem_singleton.mp hy]
        exact hloop
    · rw [hlist,map_append]
      apply List.Nodup.append h.keys (nodup_singleton _)
      intro k hk hk'
      obtain ⟨y,hy,rfl⟩:=List.mem_map.mp hk
      have hyx : relationshipKey v.fs y=relationshipKey v.fs x:=mem_singleton.mp hk'
      exact hnew (hyx▸h.seen y hy)
    · rw [hlist,hx.seen]
      intro y hy
      rcases mem_append.mp hy with hy | hy
      · exact mem_append_left _ (h.seen y hy)
      · rw [mem_singleton.mp hy,hkey]
        exact mem_append_right _ (mem_singleton_self _)

theorem ListInvariant.apply {v:View} {b:Build} (h:ListInvariant v b) (f:Effect) :
    ListInvariant v (b.apply v f):=by
  cases f with
  | emit e=>exact h.emit e
  | lookups n=>exact ⟨h.maxRelationships,h.length,h.selfLoop,h.keys,h.seen⟩
  | ambiguousReference=>exact ⟨h.maxRelationships,h.length,h.selfLoop,h.keys,h.seen⟩
  | setRole i role=>exact ⟨h.maxRelationships,h.length,h.selfLoop,h.keys,h.seen⟩
  | confirmMono root managed managedPath runtimePath=>
    exact ⟨h.maxRelationships,h.length,h.selfLoop,h.keys,h.seen⟩

def totalBoost (v : View) (i : ℕ) (xs : List DirectoryRelationship) : ℤ :=
  (xs.map (boostOn v i)).sum

@[simp] theorem totalBoost_nil (v:View) (i:ℕ) : totalBoost v i []=0:=rfl

@[simp] theorem totalBoost_append (v:View) (i:ℕ) (xs ys:List DirectoryRelationship) :
    totalBoost v i (xs++ys) = totalBoost v i xs + totalBoost v i ys:=by
  simp [totalBoost]

@[simp] theorem totalBoost_singleton (v:View) (i:ℕ) (x:DirectoryRelationship) :
    totalBoost v i [x]=boostOn v i x:=by
  simp [totalBoost]

/-- The deltas of a relationship: never negative, and zero unless its state and its evidence
allow priority. -/
structure PriorityRule (x : DirectoryRelationship) : Prop where
  nonneg : 0≤x.firstPriorityDelta ∧ 0≤x.secondPriorityDelta
  eligible : x.firstPriorityDelta≠0 ∨ x.secondPriorityDelta≠0 → x.priorityEligible=true
  state : x.priorityEligible=true →
    artifactRelationshipStateAllowsPriority x.state = true ∧ x.ambiguity = "NONE"
  strong : strongRelation x = true → x.evidenceLevel = "R4_SEMANTIC_APPLICATION_RELATION"

theorem boostOn_nonneg {x:DirectoryRelationship} (h:PriorityRule x) (v:View) (i:ℕ) :
    0≤boostOn v i x:=by
  have hf:=h.nonneg.1
  have hs:=h.nonneg.2
  unfold boostOn
  split_ifs <;> omega

theorem totalBoost_nonneg {xs:List DirectoryRelationship} (h:∀x∈xs,PriorityRule x)
    (v:View) (i:ℕ) : 0≤totalBoost v i xs:=by
  apply sum_nonneg
  intro d hd
  obtain ⟨x,hx,rfl⟩:=List.mem_map.mp hd
  exact boostOn_nonneg (h x hx) v i

def weakRelations (xs : List DirectoryRelationship) : List DirectoryRelationship :=
  xs.filter fun x => !strongRelation x

def strongRelations (xs : List DirectoryRelationship) : List DirectoryRelationship :=
  xs.filter strongRelation

theorem totalBoost_weak_add_strong (v:View) (i:ℕ) (xs:List DirectoryRelationship) :
    totalBoost v i (weakRelations xs) + totalBoost v i (strongRelations xs) =
      totalBoost v i xs:=by
  induction xs with
  | nil=>rfl
  | cons x xs ih=>
    unfold weakRelations strongRelations totalBoost at ih ⊢
    cases hx : strongRelation x <;> simp [hx] <;> omega

structure Standing (v : View) (cap : ℤ) (i : ℕ) (xs : List DirectoryRelationship)
    (c₀ c : DirectoryCandidate) : Prop where
  path : c.path=c₀.path
  score : c.priorityScore = c₀.priorityScore + totalBoost v i xs
  boost : c.relationshipPriorityBoost = totalBoost v i xs
  weak : totalBoost v i (weakRelations xs) ≤ cap
  below : c₀.priorityScore<100 → totalBoost v i (strongRelations xs) = 0 → c.priorityScore<100
  tier : totalBoost v i xs = 0 ∧ c.priorityTier=c₀.priorityTier ∨
    c.priorityTier = tierOf c.priorityScore

structure ScoreInvariant (v : View) (b : Build) : Prop where
  candidates : b.plan.candidates.length=v.plan.candidates.length
  standing : ∀ i c, b.plan.candidates[i]? = some c → ∃ c₀, v.plan.candidates[i]? = some c₀ ∧
    Standing v (relationshipCaps v.reports) i b.plan.relationships c₀ c
  rule : ∀ x∈b.plan.relationships, PriorityRule x

section Recorded

variable {v : View} {cap : ℤ} {b b' : Build} {e : Emission} {x : DirectoryRelationship}

theorem Recorded.strong (hx:Recorded v b e.gate b' x) (he:e.Sound cap) :
    strongRelation x=e.strongPriority:=by
  obtain ⟨first,second,rfl⟩:=hx.relation
  have hgate : strongRelation e.gate.relation=strongRelation e.relation:=by
    unfold strongRelation Emission.gate artifactRelationshipStateAllowsPriority
    cases e.relation.state <;> cases e.relation.priorityEligible <;> rfl
  change strongRelation e.gate.relation=e.strongPriority
  rw [hgate]
  cases hs : e.strongPriority with
  | false=>exact (he.weak hs).1
  | true=>exact (he.strong hs).1

theorem Recorded.rule (hx:Recorded v b e.gate b' x) (he:e.Sound cap) : PriorityRule x:=by
  refine ⟨hx.nonneg,?_,?_,?_⟩
  · intro hδ
    by_contra hne
    obtain ⟨first,second,hrel⟩:=hx.relation
    have heligible : e.gate.relation.priorityEligible=false:=by
      simpa [hrel] using hne
    have hfirst : e.gate.boostFirst≤0:=by
      simp only [Emission.gate] at heligible ⊢
      simp [heligible]
    have hsecond : e.gate.boostSecond≤0:=by
      simp only [Emission.gate] at heligible ⊢
      simp [heligible]
    have h1:=hx.asked.1 hfirst
    have h2:=hx.asked.2 hsecond
    omega
  · intro heligible
    obtain ⟨first,second,rfl⟩:=hx.relation
    simp only [Emission.gate,Bool.and_eq_true] at heligible
    refine ⟨heligible.2,?_⟩
    by_contra hne
    have:=he.ambiguous hne
    simp [this] at heligible
  · intro hstrong
    rw [hx.strong he] at hstrong
    obtain ⟨first,second,rfl⟩:=hx.relation
    exact (he.strong hstrong).2

end Recorded

namespace ScoreInvariant

variable {v : View} {b b' : Build}

theorem of_raised (h:ScoreInvariant v b) {strong:Bool} {cap:ℤ}
    (hlength:b'.plan.candidates.length=b.plan.candidates.length)
    (hrelationships:b'.plan.relationships=b.plan.relationships)
    (hraised:RaisedBy strong cap b b' fun _=>0) : ScoreInvariant v b':=by
  refine ⟨hlength.trans h.candidates,?_,?_⟩
  · intro i c' hc'
    obtain ⟨c,hc,hr⟩:=hraised i c' hc'
    obtain ⟨c₀,hc₀,hs⟩:=h.standing i c hc
    refine ⟨c₀,hc₀,?_⟩
    rw [hrelationships]
    have hscore : c'.priorityScore=c.priorityScore:=by
      rw [hr.score,Int.add_zero]
    refine ⟨hr.path.trans hs.path,hscore.trans hs.score,?_,hs.weak,?_,?_⟩
    · rw [hr.boost,hs.boost,Int.add_zero]
    · rw [hscore]
      exact hs.below
    · rcases hr.tier with ⟨-,ht⟩ | ht
      · rw [ht,hscore]
        exact hs.tier
      · exact .inr ht
  · rw [hrelationships]
    exact h.rule

theorem recorded (h:ScoreInvariant v b) {e:Emission} {x:DirectoryRelationship}
    (hx:Recorded v b e.gate b' x) (he:e.Sound (relationshipCaps v.reports)) :
    ScoreInvariant v b':=by
  have hrule:=hx.rule he
  have hstrong:=hx.strong he
  refine ⟨hx.candidates.trans h.candidates,?_,?_⟩
  · intro i c' hc'
    obtain ⟨c,hc,hr⟩ : ∃c,b.plan.candidates[i]? = some c ∧
      Raised e.strongPriority e.relationshipCap c c' (boostOn v i x):=hx.raised i c' hc'
    obtain ⟨c₀,hc₀,hs⟩:=h.standing i c hc
    refine ⟨c₀,hc₀,?_⟩
    have hδ:=hr.nonneg
    have hweakTotal:=totalBoost_weak_add_strong v i b.plan.relationships
    have hstrongTotal : 0≤totalBoost v i (strongRelations b.plan.relationships):=
      totalBoost_nonneg (fun x hx=>h.rule x (mem_of_mem_filter hx)) v i
    rw [hx.relationships]
    refine ⟨hr.path.trans hs.path,?_,?_,?_,?_,?_⟩
    · rw [hr.score,hs.score,totalBoost_append,totalBoost_singleton]
      omega
    · rw [hr.boost,hs.boost,totalBoost_append,totalBoost_singleton]
    · -- a weak boost is made only while the whole total stays within the cap
      cases hw : e.strongPriority with
      | true=>simpa [weakRelations,hstrong,hw] using hs.weak
      | false=>
        have hcap:=(he.weak hw).2
        have hweak:=hs.weak
        have hboost:=hs.boost
        have hboost':=hr.boost
        have hcapped:=hr.capped hw
        simp only [weakRelations,filter_append,totalBoost_append] at hweak hweakTotal ⊢
        simp only [hstrong,hw,Bool.not_false,filter_cons_of_pos,filter_nil, totalBoost_singleton]
        by_cases hz : boostOn v i x=0
        · omega
        · have hle : c'.relationshipPriorityBoost≤e.relationshipCap:=hcapped (by omega)
          omega
    · intro hlt hz
      cases hw : e.strongPriority with
      | true=>
        simp only [strongRelations,filter_append,totalBoost_append] at hz hstrongTotal
        simp only [hstrong,hw,filter_cons_of_pos,filter_nil, totalBoost_singleton] at hz
        have hbelow:=hs.below hlt (by unfold strongRelations;omega)
        have hscore:=hr.score
        omega
      | false=>
        have hz' : totalBoost v i (strongRelations b.plan.relationships)=0:=by
          simpa [strongRelations,hstrong,hw] using hz
        exact hr.below hw (hs.below hlt hz')
    · rcases hr.tier with ⟨hz,ht⟩ | ht
      · rcases hs.tier with ⟨hz',ht'⟩ | ht'
        · left
          rw [totalBoost_append,totalBoost_singleton]
          exact ⟨by omega,ht.trans ht'⟩
        · right
          rw [ht,ht',hr.score,hz,Int.add_zero]
      · exact .inr ht
  · rw [hx.relationships]
    intro y hy
    rcases mem_append.mp hy with hy | hy
    · exact h.rule y hy
    · rw [mem_singleton.mp hy]
      exact hrule

theorem emit (h:ScoreInvariant v b) {e:Emission}
    (he:e.Sound (relationshipCaps v.reports)) : ScoreInvariant v (b.emit v e):=by
  rcases b.emit_cases v e with ⟨hb,-⟩ | ⟨hb,-⟩ | ⟨x,hx,-⟩
  · rw [hb]
    exact h
  · rw [hb]
    exact ⟨h.candidates,h.standing,h.rule⟩
  · have h' : ScoreInvariant v {b with seen:=b.seen++[relationshipKey v.fs e.relation]}:=
      ⟨h.candidates,h.standing,h.rule⟩
    exact h'.recorded hx he

theorem apply (h:ScoreInvariant v b) {f:Effect} (hf:f.Sound v (relationshipCaps v.reports)) :
    ScoreInvariant v (b.apply v f):=by
  cases f with
  | emit e=>exact h.emit hf
  | lookups n=>exact ⟨h.candidates,h.standing,h.rule⟩
  | ambiguousReference=>exact ⟨h.candidates,h.standing,h.rule⟩
  | confirmMono root managed managedPath runtimePath=>exact ⟨h.candidates,h.standing,h.rule⟩
  | setRole i role=>
    have hraised : RaisedBy true 0 b (b.apply v (.setRole i role)) fun _=>0:=
      .of_modify rfl (fun c _ => .same rfl rfl rfl rfl) fun _ _=>rfl
    refine h.of_raised ?_ ?_ hraised
    · simp [Build.apply]
    · rfl

end ScoreInvariant

section Build

variable (fs : FileSystem) (plan : DirectoryPlan) (reports : List DirectoryReportIndex)

theorem build_listInvariant :
    ListInvariant (viewOf fs plan reports) (buildDirectoryRelationships fs plan reports):=by
  apply runPasses_invariant (passEffects_sound _) fun b f _ hb=>hb.apply f
  constructor <;> simp [viewOf,clearedPlan]

theorem build_scoreInvariant :
    ScoreInvariant (viewOf fs plan reports) (buildDirectoryRelationships fs plan reports):=by
  apply runPasses_invariant (passEffects_sound _) fun b f hf hb=>hb.apply hf
  have hcap : 0 ≤ relationshipCaps (viewOf fs plan reports).reports:=by
    have:=relationshipCaps_ge (viewOf fs plan reports).reports
    omega
  refine ⟨rfl,?_,by simp [clearedPlan]⟩
  intro i c hc
  have hboost : c.relationshipPriorityBoost=0:=by
    simp only [clearedPlan,getElem?_map] at hc
    obtain ⟨c',-,rfl⟩:=map_eq_some_iff.mp hc
    rfl
  exact ⟨c,hc,rfl,by simp [clearedPlan],hboost,hcap,fun h _=>h,.inl ⟨rfl,rfl⟩⟩

/-- Scores change by the deltas of relationships whose state and evidence allow priority.
All that weak relations add to a candidate stays within the cap, and a candidate below 100
that no strong relation lifts stays below 100. -/
theorem weak_relationships_cannot_promote (reports : List DirectoryReportIndex) :
    let v := viewOf fs plan reports
    let built:=(buildDirectoryRelationships fs plan reports).plan
    built.candidates.length=plan.candidates.length ∧
    (∀i c₀ c,plan.candidates[i]? = some c₀ → built.candidates[i]? = some c →
      Standing v (relationshipCaps reports) i built.relationships c₀ c ∧
      (c₀.priorityTier=tierOf c₀.priorityScore → c.priorityTier=tierOf c.priorityScore)) ∧
    (∀x∈built.relationships,PriorityRule x) ∧
    built.relationships.length≤plan.maxRelationships ∧
    (∀x∈built.relationships,selfLoop fs x=false) ∧
    (built.relationships.map (relationshipKey fs)).Nodup:=by
  intro v built
  have hscore:=build_scoreInvariant fs plan reports
  have hlist:=build_listInvariant fs plan reports
  refine ⟨?_,?_,hscore.rule,hlist.length,hlist.selfLoop,hlist.keys⟩
  · exact hscore.candidates.trans (by simp [viewOf,clearedPlan])
  · intro i c₀ c hc₀ hc
    obtain ⟨c₁,hc₁,hs⟩:=hscore.standing i c hc
    simp only [viewOf,clearedPlan,getElem?_map,hc₀,map_some, some.injEq] at hc₁
    subst hc₁
    have hs' : Standing v (relationshipCaps reports) i built.relationships c₀ c:=
      ⟨hs.path,hs.score,hs.boost,hs.weak,hs.below,hs.tier⟩
    refine ⟨hs',?_⟩
    intro htier
    rcases hs'.tier with ⟨hz,ht⟩ | ht
    · rw [ht,htier,hs'.score,hz,Int.add_zero]
    · exact ht

end Build

def plainFileSystem : FileSystem where
  pathKey p := p.native
  hasExecutePermission _ := true
  isUnder p base := base.native.toList.isPrefixOf p.native.toList

/-- The metadata and the native image of one Unity product. -/
def il2cppPlan : DirectoryPlan where
  root := ⟨"g"⟩
  candidates := [{path:=⟨"g/global-metadata.dat"⟩},{path:=⟨"g/GameAssembly.dll"⟩}]

def il2cppReport : DirectoryReportIndex where
  input := ⟨"g/GameAssembly.dll"⟩
  unityMetadataValid := true
  unityRegistrationResolved := true
  unityGameAssemblyValidated := true
  unityMetadataPath := ⟨"g/global-metadata.dat"⟩
  unityGameAssemblyPath := ⟨"g/GameAssembly.dll"⟩

/-- No relation of this build has a cap above 20, yet each candidate is lifted by 25. -/
theorem strong_boost_exceeds_cap : relationshipCaps [il2cppReport]=20 ∧
      ¬ ∀c∈(buildDirectoryRelationships plainFileSystem il2cppPlan
        [il2cppReport]).plan.candidates, c.relationshipPriorityBoost≤20:=by
  decide +kernel

end AutoRefirst.DirectoryRelationships
