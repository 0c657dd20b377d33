import AutoRefirst.GenerationFallback
import AutoRefirst.GenerationKeeping
import AutoRefirst.GroundedNodes

/-!
# Chains of generations

A node of a generation above one counts from a node of the generation before it: the one that wrote
its bytes, or the one whose mapping it continues. In a run that keeps its generations that node is
in the finished graph, so every generation is the length of a chain of nodes.
-/

namespace AutoRefirst.Materialization
open List Option

namespace Builder

variable {b c d : Builder} {E : Environment} {e : TimelineEvent}

/-- Every generation is a number of 32 bits, and one above 1 counts from a writer. -/
structure Counted (E : Environment) (timeline : List TimelineEvent) : Prop where
  bound : ∀ id g, Held E timeline id g → g<2^32
  writer : ∀ id g, (runEvents E timeline).generationOf id = some (g+1) → 1≤g →
    WriterOf (Held E timeline) (runEvents E timeline).edges id g

variable {edges edges' : List MaterializationEdge} {w : ℕ}

theorem WriterOf.mono {H:ℕ→ℕ→Prop} {H':ℕ→ℕ→Prop} {id:ℕ} (hH:∀m w,H m w → H' m w)
    (hsub:edges ⊆ edges') (h:WriterOf H edges id w) :
    WriterOf H' edges' id w:=by
  obtain ⟨p,hp,x,hx,hwrite,m,hm,hrest⟩:=h
  exact ⟨p,hp.mono hsub,x,hsub hx,hwrite,m,hH m w hm,hrest⟩

variable {p : ℕ}

theorem WriterOf.taken {H:ℕ→ℕ→Prop} {id:ℕ} (htaken:TakenFrom edges id p)
    (h:WriterOf H edges p w) : WriterOf H edges id w:=by
  obtain ⟨q,hq,hrest⟩:=h
  exact ⟨q,.taken htaken hq,hrest⟩

theorem counted_run (timeline:List TimelineEvent) : Counted E timeline:=by
  induction timeline using reverseRecOn with
  | nil=>
    have hnone : ∀id,generationOf (runEvents E []) id=none:=by
      intro id
      simp [runEvents,generationOf,mark]
    constructor
    · rintro id g ⟨pre,hpre,hg⟩
      rw [prefix_nil.mp hpre,hnone] at hg
      cases hg
    · intro id g hg
      rw [hnone] at hg
      cases hg
  | append_singleton timeline e ih=>
    have hsound:=sound_runEvents E timeline
    have hsub:=edges_step (E:=E) (b:=runEvents E timeline) (e:=e)
    have hH : ∀m w,Held E timeline m w → Held E (timeline++[e]) m w:=fun m w h=>h.extend
    have hbefore : ∀id g,Assigned (runEvents E timeline) (step E (runEvents E timeline) e).original
        (step E (runEvents E timeline) e).edges id g → g<2^32 ∧ ∀k,g=k+1 → 1≤k →
          WriterOf (Held E (timeline++[e])) (step E (runEvents E timeline) e).edges id k:=by
      intro id g hassigned
      induction hassigned with
      | image _=>exact ⟨by omega,fun k hk=>by omega⟩
      | @next id w hw=>
        refine ⟨Nat.mod_lt _ (by omega),fun k hk hpos=>?_⟩
        have hwriter:=hsound.writerOf hw
        obtain ⟨p,hp,x,hx,hwrite,m,hm,hrest⟩:=hwriter
        have hw32:=ih.bound m w hm
        obtain rfl : w=k:=by omega
        exact (hsound.writerOf hw).mono hH hsub
      | first _=>exact ⟨by omega,fun k hk=>by omega⟩
      | @held id src g htaken hg=>
        refine ⟨ih.bound src g ⟨timeline,prefix_refl _,hg⟩,fun k hk hpos=>?_⟩
        exact .taken htaken ((ih.writer src k (hk▸hg) hpos).mono hH hsub)
      | taken htaken _ ih'=>exact ⟨ih'.1,fun k hk hpos => .taken htaken (ih'.2 k hk hpos)⟩
    constructor
    · rintro id g ⟨pre,hpre,hg⟩
      rcases prefix_concat_iff.mp hpre with rfl | hpre
      · rw [runEvents_concat] at hg
        rcases explains_step hsound.valid id g hg with hold | hassigned
        · exact ih.bound id g ⟨timeline,prefix_refl _,hold⟩
        · exact (hbefore id g hassigned).1
      · exact ih.bound id g ⟨pre,hpre,hg⟩
    · intro id g hg hpos
      rw [runEvents_concat] at hg ⊢
      rcases explains_step hsound.valid id (g+1) hg with hold | hassigned
      · exact (ih.writer id g hold hpos).mono hH hsub
      · exact (hbefore id (g+1) hassigned).2 g rfl hpos

/-- The node took over what `p` has, or it is an artifact of it. -/
def CopiedFrom (edges : List MaterializationEdge) (id p : ℕ) : Prop :=
  ∃ x∈edges, x.destinationNode=id ∧ x.sourceNode = some p ∧
    (x.kind = .childInherited ∨ x.kind = .execHandoffTo ∨ x.kind = .dumpedAs ∨
      x.kind = .reconstructedAs ∨ x.kind = .installedAs)

/-- The generation of the node counts from that of `m`, which is `w`: the mapping of `m` goes on in
it, or in what it was copied from; or `m` has written it. An edge that names no node for the writer
names its generation. -/
def CountsFrom (edges : List MaterializationEdge) (id m w : ℕ) : Prop :=
  ∃ p, Relation.ReflTransGen (CopiedFrom edges) id p ∧ ∃ x∈edges, IsWrite x p ∧
    ((x.kind = .mutatedFrom ∧ x.sourceNode = some m) ∨
      (x.writerExecutionGeneration = some w ∧
        (x.kind = .materializedByRuntime → x.sourceNode = some m)))

def SameEdge (x y : MaterializationEdge) : Prop := y = {x with sourceGeneration:=y.sourceGeneration}

theorem finalEdges_same {x:MaterializationEdge} (hx:x∈b.edges) :
    ∃y∈b.finalEdges.edges,SameEdge x y:=by
  unfold finalEdges
  refine ⟨_,mem_map_of_mem hx,?_⟩
  split
  · rfl
  · split <;> rfl

theorem CopiedFrom.final {id:ℕ} (h:CopiedFrom b.edges id p) :
    CopiedFrom b.finalEdges.edges id p:=by
  obtain ⟨x,hx,hrest⟩:=h
  obtain ⟨y,hy,hsame⟩:=finalEdges_same hx
  rw [SameEdge] at hsame
  exact ⟨y,hy,hsame▸hrest⟩

theorem CopiedFrom.mono {id:ℕ} (hsub:edges ⊆ edges') (h:CopiedFrom edges id p) :
    CopiedFrom edges' id p:=by
  obtain ⟨x,hx,hrest⟩:=h
  exact ⟨x,hsub hx,hrest⟩

variable {m : ℕ}

theorem CountsFrom.mono {id:ℕ} (hsub:edges ⊆ edges') (h:CountsFrom edges id m w) :
    CountsFrom edges' id m w:=by
  obtain ⟨p,hp,x,hx,hrest⟩:=h
  exact ⟨p,Relation.ReflTransGen.mono (fun _ _ hc=>CopiedFrom.mono hsub hc) _ _ hp,x,hsub hx,hrest⟩

theorem CountsFrom.copied {id:ℕ} (hcopied:Relation.ReflTransGen (CopiedFrom edges) id p)
    (h:CountsFrom edges p m w) :
    CountsFrom edges id m w:=by
  obtain ⟨q,hq,hrest⟩:=h
  exact ⟨q,hcopied.trans hq,hrest⟩

theorem CountsFrom.final {id:ℕ} (h:CountsFrom b.edges id m w) :
    CountsFrom b.finalEdges.edges id m w:=by
  obtain ⟨p,hp,x,hx,⟨hdst,hkind,hev⟩,hrest⟩:=h
  obtain ⟨y,hy,hsame⟩:=finalEdges_same hx
  rw [SameEdge] at hsame
  refine ⟨p,Relation.ReflTransGen.mono (fun _ _ hc=>CopiedFrom.final hc) _ _ hp,y,hy,⟨?_,?_,?_⟩,hsame▸hrest⟩
  · exact hsame▸hdst
  · exact hsame▸hkind
  · exact hsame▸hev

theorem copied_of_comes {id:ℕ} (h:Comes edges id p) :
    Relation.ReflTransGen (CopiedFrom edges) id p:=by
  induction h with
  | refl id=>exact .refl
  | taken htaken _ ih=>
    obtain ⟨x,hx,hdst,hsrc,hkind⟩:=htaken
    exact .head ⟨x,hx,hdst,hsrc,by rcases hkind with h | h <;> simp [h]⟩ ih

def Copies (b c : Builder) : Prop := ∀ id g, c.generationOf id = some g →
  ∃ p, Relation.ReflTransGen (CopiedFrom c.edges) id p ∧ b.generationOf p = some g

theorem Copies.refl (b:Builder) : Copies b b:=fun id _ h=>⟨id,.refl,h⟩

theorem Copies.trans (h:Copies b c) (h':Copies c d) (hsub:c.edges ⊆ d.edges) : Copies b d:=by
  intro id g hg
  obtain ⟨q,hq,hqg⟩:=h' id g hg
  obtain ⟨p,hp,hpg⟩:=h q g hqg
  exact ⟨p,hq.trans (Relation.ReflTransGen.mono (fun _ _ hc=>CopiedFrom.mono hsub hc) _ _ hp),hpg⟩

theorem Copies.of_same (h:SameGenerations b c) : Copies b c:=fun id _ hg=>⟨id,.refl,h id▸hg⟩

theorem generationOf_addNode (n:MaterializationNode) (id:ℕ) : (b.addNode n).2.generationOf id =
      if id = b.nodeCount+1 then n.generation else b.generationOf id:=by
  rw [generationOf,mark_addNode]
  split <;> rfl

theorem generationOf_modifyNode (i:ℕ) (f:MaterializationNode→MaterializationNode) (id:ℕ) :
    (b.modifyNode i f).generationOf id =
      if id = i ∧ i≤b.nodeCount then (f (b.nodes i)).generation else b.generationOf id:=by
  rw [generationOf,mark_modifyNode]
  split <;> rfl

theorem copies_link (hb:b.Grounded) (id src:ℕ)
    (hother:∀j g,j≠id → c.generationOf j=some g → b.generationOf j=some g)
    (hcopied:∀g,c.generationOf id=some g → (b.nodes src).generation=some g)
    (hedge:CopiedFrom c.edges id src) : Copies b c:=by
  intro j g hg
  by_cases hj : j=id
  · subst hj
    have hsrc : b.Names src:=by
      by_contra hnot
      have hnone:=hcopied g hg
      rw [hb.ungenerated src hnot] at hnone
      cases hnone
    exact ⟨src,.single hedge,(generationOf_of_le hsrc.2).trans (hcopied g hg)⟩
  · exact ⟨j,.refl,hother j g hj hg⟩

theorem copies_addArtifact (a:RuntimeArtifact) (kind:MaterializationNodeKind) :
    Copies b (b.addArtifact E a kind).2:=by
  intro id g hg
  refine ⟨id,.refl,?_⟩
  have hadded : (b.addArtifact E a kind).2.generationOf id =
      if id = b.nodeCount+1 then none else b.generationOf id:=generationOf_addNode _ id
  rw [hadded] at hg
  split at hg
  · cases hg
  · exact hg

theorem grounded_addArtifact (hb:b.Grounded) (a:RuntimeArtifact)
    (kind:MaterializationNodeKind) : (b.addArtifact E a kind).2.Grounded:=by
  unfold addArtifact
  dsimp only
  exact (hb.addNode _).same rfl rfl rfl rfl

theorem copies_linkArtifact (hb:b.Grounded) (kind:MaterializationNodeKind) (id:ℕ)
    (src:Option ℕ) : Copies b (b.linkArtifact E kind id src):=by
  cases src with
  | none=>
    unfold linkArtifact
    dsimp only
    split <;> exact .of_same fun _=>rfl
  | some src=>
    have hgeneration : ∀j,(b.linkArtifact E kind id (some src)).generationOf j =
        if j = id ∧ id≤b.nodeCount then (b.nodes src).generation else b.generationOf j:=by
      intro j
      unfold linkArtifact
      dsimp only
      split <;> exact generationOf_modifyNode (b:=b) id (fun m=>inheritArtifact m (b.nodes src)) j
    refine copies_link hb id src ?_ ?_ ?_
    · intro j g hj hg
      rw [hgeneration,if_neg fun h=>hj h.1] at hg
      exact hg
    · intro g hg
      have hle:=le_of_generationOf hg
      rw [hgeneration] at hg
      split at hg
      · exact hg
      · rename_i hnot
        exact absurd ⟨rfl,le_of_generationOf hg⟩ hnot
    · unfold linkArtifact
      dsimp only
      split
      · exact ⟨_,mem_append_right _ (mem_singleton_self _),rfl,rfl,by simp⟩
      · exact ⟨_,mem_append_right _ (mem_singleton_self _),rfl,rfl,by simp⟩

theorem grounded_linkArtifact (hb:b.Grounded) (kind:MaterializationNodeKind) {id:ℕ}
    (hid:b.Names id) (src:Option ℕ) : (b.linkArtifact E kind id src).Grounded:=by
  have hcopied : ∀src,(match src with
      | some src=>b.modifyNode id fun m=>inheritArtifact m (b.nodes src)
      | none=>b).Grounded:=by
    intro src
    cases src with
    | none=>exact hb
    | some src=>exact hb.modifyNode hid _
  unfold linkArtifact
  dsimp only
  split <;> exact (hcopied src).addEdge _ _ _ _ _ _ _

theorem copies_installArtifact (hb:b.Grounded) (a:RuntimeArtifact) (id:ℕ)
    (replacement:ReplacementReport) : Copies b (b.installArtifact E a id replacement):=by
  have hgeneration : ∀j,(b.installArtifact E a id replacement).generationOf j =
      if j = b.nodeCount+1 then (b.nodes id).generation else b.generationOf j:=by
    intro j
    unfold installArtifact
    dsimp only
    split <;> exact generationOf_addNode _ j
  refine copies_link hb (b.nodeCount+1) id ?_ ?_ ?_
  · intro j g hj hg
    rw [hgeneration,if_neg hj] at hg
    exact hg
  · intro g hg
    rw [hgeneration,if_pos rfl] at hg
    exact hg
  · unfold installArtifact
    dsimp only
    split
    · exact ⟨_,mem_append_right _ (mem_singleton_self _),rfl,rfl,by simp⟩
    · exact ⟨_,mem_append_right _ (mem_singleton_self _),rfl,rfl,by simp⟩

theorem grounded_installArtifact (hb:b.Grounded) (a:RuntimeArtifact) (id:ℕ)
    (replacement:ReplacementReport) : (b.installArtifact E a id replacement).Grounded:=by
  unfold installArtifact
  dsimp only
  split
  · exact (hb.addNode _).same rfl rfl rfl rfl
  · exact (hb.addNode _).addEdge _ _ _ _ _ _ _

theorem copies_artifactStep (hb:b.Grounded) (a:RuntimeArtifact) :
    Copies b (artifactStep E b a) ∧ (artifactStep E b a).Grounded:=by
  unfold artifactStep
  split
  · exact ⟨.refl b,hb⟩
  · rename_i kind _
    dsimp only
    have hadded:=grounded_addArtifact (E:=E) hb a kind
    have hnamed : (b.addArtifact E a kind).2.Names (b.addArtifact E a kind).1:=
      ⟨Nat.succ_ne_zero _,Nat.le_refl _⟩
    have hlinked:=grounded_linkArtifact (E:=E) hadded kind hnamed
      ((b.addArtifact E a kind).2.findSourceForArtifact a)
    have hsub : (b.addArtifact E a kind).2.edges ⊆ ((b.addArtifact E a kind).2.linkArtifact E kind
        (b.addArtifact E a kind).1 ((b.addArtifact E a kind).2.findSourceForArtifact a)).edges:=by
      unfold linkArtifact
      dsimp only
      split <;> split <;> exact subset_append_left _ _
    have hcopies:=(copies_addArtifact (b:=b) (E:=E) a kind).trans
      (copies_linkArtifact (E:=E) hadded kind (b.addArtifact E a kind).1
        ((b.addArtifact E a kind).2.findSourceForArtifact a)) hsub
    split
    · split
      · exact ⟨hcopies.trans (copies_installArtifact hlinked a _ _)
          (extends_installArtifact _ _ _).edges.subset,grounded_installArtifact hlinked a _ _⟩
      · exact ⟨hcopies,hlinked⟩
    · exact ⟨hcopies,hlinked⟩

theorem copies_artifactsPhase (hb:b.Grounded) :
    Copies b (b.artifactsPhase E) ∧ (b.artifactsPhase E).Grounded:=by
  unfold artifactsPhase
  generalize E.artifacts = l
  induction l generalizing b with
  | nil=>exact ⟨.refl b,hb⟩
  | cons a l ih=>
    obtain ⟨hcopies,hgrounded⟩:=copies_artifactStep (E:=E) hb a
    obtain ⟨hrest,hlast⟩:=ih hgrounded
    have hsub : ∀(l:List RuntimeArtifact) (c:Builder),
        c.edges ⊆ (l.foldl (artifactStep E) c).edges:=by
      intro l
      induction l with
      | nil=>exact fun c=>List.Subset.refl _
      | cons x l ih=>
        exact fun c=>List.Subset.trans (extends_artifactStep x).edges.subset (ih _)
    exact ⟨hcopies.trans hrest (hsub l _),hlast⟩

theorem keepsAll_append (before later:List TimelineEvent) : keepsAll E b (before++later) =
      (keepsAll E b before && keepsAll E (before.foldl (step E) b) later):=by
  induction before generalizing b with
  | nil=>simp [keepsAll]
  | cons x before ih=>simp [keepsAll,ih,Bool.and_assoc]

theorem held_kept {timeline:List TimelineEvent} (h:keepsAll E {} timeline=true) {id g:ℕ}
    (hheld:Held E timeline id g) : (runEvents E timeline).generationOf id=some g:=by
  obtain ⟨before,⟨later,rfl⟩,hg⟩:=hheld
  rw [keepsAll_append,Bool.and_eq_true] at h
  exact keeps_run before h.2 id g hg

end Builder

open Builder

def Has (G : MaterializationGraph) (id g : ℕ) : Prop :=
  id ≠ 0 ∧ ∃ n, G.nodes[id-1]? = some n ∧ n.generation = some g

/-- Nodes from one of some generation down to one of generation 1, each of which counts from the
next. -/
inductive Chain (G : MaterializationGraph) : List ℕ → Prop
  | first {id : ℕ} : Has G id 1 → Chain G [id]
  | next {id m : ℕ} {l : List ℕ} : Chain G (m::l) → Has G id (l.length+2) →
      CountsFrom G.edges id m (l.length+1) → Chain G (id :: m::l)

section
variable {E : Environment} {timeline : List TimelineEvent} {id g : ℕ} {G : MaterializationGraph}

theorem has_iff : Has (buildMaterializationGraph E timeline) id g ↔
    ((runEvents E timeline).artifactsPhase E).Names id ∧
      ((runEvents E timeline).artifactsPhase E).generationOf id=some g:=by
  have hnodes : (buildMaterializationGraph E timeline).nodes =
      ((runEvents E timeline).artifactsPhase E).nodeList:=rfl
  rw [Has,hnodes]
  generalize (runEvents E timeline).artifactsPhase E = b
  cases id with
  | zero=>simp [Names]
  | succ i=>
    rw [nodeList,Names,Nat.add_sub_cancel,getElem?_map]
    by_cases hi : i<b.nodeCount
    · rw [getElem?_range hi,generationOf_of_le (by omega)]
      simp only [map_some,some.injEq,exists_eq_left',ne_eq,Nat.succ_ne_zero,
        not_false_eq_true,true_and,Nat.add_one_le_iff,hi]
    · rw [getElem?_eq_none (by simp;omega)]
      simp only [map_none,reduceCtorEq,false_and,exists_false,and_false,false_iff]
      omega

theorem has_unique {g':ℕ} (h:Has G id g) (h':Has G id g') : g=g':=by
  obtain ⟨-,n,hn,hg⟩:=h
  obtain ⟨-,n',hn',hg'⟩:=h'
  rw [hn] at hn'
  rw [some.inj hn',hg'] at hg
  exact (some.inj hg).symm

theorem Chain.has {l:List ℕ} (h:Chain G l) : ∀x∈l,∃g≤l.length,Has G x g:=by
  induction h with
  | @first id hid=>
    intro x hx
    rw [mem_singleton.mp hx]
    exact ⟨1,Nat.le_refl _,hid⟩
  | @next id m l _ hid _ ih=>
    intro x hx
    rcases mem_cons.mp hx with rfl | hx
    · exact ⟨_,Nat.le_refl _,hid⟩
    · obtain ⟨g,hg,hhas⟩:=ih x hx
      exact ⟨g,Nat.le_succ_of_le hg,hhas⟩

theorem Chain.nodup {l:List ℕ} (h:Chain G l) : l.Nodup:=by
  induction h with
  | first _=>exact nodup_singleton _
  | @next id m l hchain hid _ ih=>
    refine nodup_cons.mpr ⟨?_,ih⟩
    intro hmem
    obtain ⟨g,hg,hhas⟩:=hchain.has id hmem
    have heq:=has_unique hid hhas
    simp only [length_cons] at hg
    omega

/-- A node of a generation above one counts from a node of the generation before. -/
theorem counts_from (hkeeps:keepsAll E {} timeline=true)
    (h:Has (buildMaterializationGraph E timeline) id (g+1)) (hg:1≤g) :
    ∃m,Has (buildMaterializationGraph E timeline) m g ∧
      CountsFrom (buildMaterializationGraph E timeline).edges id m g:=by
  obtain ⟨-,hgeneration⟩:=has_iff.mp h
  obtain ⟨hcopies,hgrounded⟩:=copies_artifactsPhase (E:=E) (grounded_run (E:=E) timeline)
  obtain ⟨p,hp,hpg⟩:=hcopies id (g+1) hgeneration
  obtain ⟨q,hq,x,hx,hwrite,m,hm,hrest⟩:=(counted_run timeline).writer p g hpg hg
  have hkept:=extends_artifactsPhase (E:=E) |>.keeps m g (held_kept hkeeps hm)
  have hnamed : ((runEvents E timeline).artifactsPhase E).Names m:=by
    by_contra hnot
    have hnone:=hgrounded.ungenerated m hnot
    rw [generationOf_of_le (le_of_generationOf hkept),hnone] at hkept
    cases hkept
  refine ⟨m,has_iff.mpr ⟨hnamed,hkept⟩,?_⟩
  have hcounts : CountsFrom (runEvents E timeline).edges p m g:=
    ⟨q,copied_of_comes hq,x,hx,hwrite,hrest⟩
  exact ((hcounts.mono extends_artifactsPhase.edges.subset).copied hp).final

theorem chain_of_has (hkeeps:keepsAll E {} timeline=true)
    (h:Has (buildMaterializationGraph E timeline) id (g+1)) :
    ∃l,Chain (buildMaterializationGraph E timeline) (id::l) ∧ l.length=g:=by
  induction g generalizing id with
  | zero=>exact ⟨[],.first h,rfl⟩
  | succ g ih=>
    obtain ⟨m,hm,hcounts⟩:=counts_from hkeeps h (Nat.succ_pos g)
    obtain ⟨l,hl,rfl⟩:=ih hm
    exact ⟨m::l,.next hl h hcounts,rfl⟩

theorem foldl_max_mem (l:List ℕ) (k:ℕ) : l.foldl max k=k ∨ l.foldl max k∈l:=by
  induction l generalizing k with
  | nil=>exact .inl rfl
  | cons x l ih=>
    rw [foldl_cons]
    rcases ih (max k x) with h | h
    · rcases max_choice k x with hk | hx
      · exact .inl (h.trans hk)
      · exact .inr (mem_cons.mpr (.inl (h.trans hx)))
    · exact .inr (mem_cons_of_mem _ h)

theorem le_foldl_max (l:List ℕ) (k:ℕ) : k≤l.foldl max k ∧ ∀x∈l,x≤l.foldl max k:=by
  induction l generalizing k with
  | nil=>exact ⟨Nat.le_refl _,by simp⟩
  | cons y l ih=>
    obtain ⟨hk,hl⟩:=ih (max k y)
    rw [foldl_cons]
    refine ⟨(le_max_left k y).trans hk,?_⟩
    intro x hx
    rcases mem_cons.mp hx with rfl | hx
    · exact (le_max_right k x).trans hk
    · exact hl x hx

theorem mem_generations {nodes:List MaterializationNode} :
    g ∈ generationsOf nodes (fun _=>true) ↔ ∃n∈nodes,n.generation=some g:=by
  simp [generationsOf]

theorem has_of_mem {n:MaterializationNode} (hn:n∈G.nodes) (hg:n.generation=some g) :
    ∃id,Has G id g:=by
  obtain ⟨i,hi⟩:=mem_iff_getElem?.mp hn
  exact ⟨i+1,Nat.succ_ne_zero _,n,hi,hg⟩

theorem deepest_has (hpos:1≤(buildMaterializationGraph E timeline).summary.deepestConfirmedGeneration) :
    ∃id,Has (buildMaterializationGraph E timeline) id
      (buildMaterializationGraph E timeline).summary.deepestConfirmedGeneration:=by
  have hdeepest : (buildMaterializationGraph E timeline).summary.deepestConfirmedGeneration =
      (generationsOf (buildMaterializationGraph E timeline).nodes fun _=>true).foldl max 0:=rfl
  rw [hdeepest] at hpos ⊢
  rcases foldl_max_mem (generationsOf (buildMaterializationGraph E timeline).nodes fun _=>true) 0 with
    h | h
  · omega
  · obtain ⟨n,hn,hg⟩:=mem_generations.mp h
    exact has_of_mem hn hg

theorem le_deepest (h:Has (buildMaterializationGraph E timeline) id g) :
    g≤(buildMaterializationGraph E timeline).summary.deepestConfirmedGeneration:=by
  obtain ⟨-,n,hn,hg⟩:=h
  exact (le_foldl_max _ 0).2 g (mem_generations.mpr ⟨n,mem_of_getElem? hn,hg⟩)

end

/-- In a run that keeps its generations every node of a generation above one counts from a node of
the generation before, and each generation, the deepest one too, is the length of a chain without
repetitions that ends at a node of generation 1. -/
theorem generations_chained (E : Environment) (timeline : List TimelineEvent)
    (hkeeps : keepsAll E {} timeline=true) :
    let G := buildMaterializationGraph E timeline
    (∀id g,Has G id (g+1) → 1≤g → ∃m,Has G m g ∧ CountsFrom G.edges id m g) ∧
    (∀id g,Has G id g → 1≤g → ∃l,Chain G (id::l) ∧ (id::l).length=g ∧ (id::l).Nodup) ∧
    (∀id g,Has G id g → g≤G.summary.deepestConfirmedGeneration) ∧
    (1≤G.summary.deepestConfirmedGeneration →
      ∃l,Chain G l ∧ l.length=G.summary.deepestConfirmedGeneration):=by
  have hchain : ∀id g,Has (buildMaterializationGraph E timeline) id g → 1≤g →
      ∃l,Chain (buildMaterializationGraph E timeline) (id::l) ∧ (id::l).length=g ∧
        (id::l).Nodup:=by
    intro id g h hg
    obtain ⟨k,rfl⟩:=Nat.exists_eq_add_of_le' hg
    obtain ⟨l,hl,hlength⟩:=chain_of_has hkeeps h
    exact ⟨l,hl,congrArg (· + 1) hlength,hl.nodup⟩
  refine ⟨fun id g h hg=>counts_from hkeeps h hg,hchain,fun id g h=>le_deepest h,?_⟩
  intro hpos
  obtain ⟨id,hid⟩:=deepest_has hpos
  obtain ⟨l,hl,hlength,-⟩:=hchain id _ hid hpos
  exact ⟨id::l,hl,hlength⟩

def Ancestor (G : MaterializationGraph) (m n : ℕ) : Prop :=
  ∃ x∈G.edges, x.kind ≠ .protectedExecutable ∧ x.kind ≠ .firstExecutedAs ∧
    x.sourceNode = some m ∧ x.destinationNode=n

def changedImageRun : List TimelineEvent :=
  [{ kind:=.fileWrite,processUid:=1,pid:=10,
      fields:=[("backing_id","5"),("backing_kind","memfd")] },
    { kind:=.materializedExecute,processUid:=1,pid:=10,
      fields:=[("backing_id","5"),("backing_kind","memfd")] },
    { kind:=.memoryWrite,processUid:=1,pid:=10,
      fields:=[("image_relation","original_image"),("address","0x1000")] },
    { kind:=.materializedExecute,processUid:=1,pid:=10,
      fields:=[("image_relation","original_image"),("address","0x1000")] }]

theorem changedImage_has : Has (buildMaterializationGraph {} changedImageRun) 2 2:=
  has_iff.mpr ⟨⟨by decide,by decide +kernel⟩,by decide +kernel⟩

theorem changedImage_ancestors (m:ℕ) :
    ¬Ancestor (buildMaterializationGraph {} changedImageRun) m 2:=by
  rintro ⟨x,hx,hkind,hkind',hsrc,hdst⟩
  have hall : ((buildMaterializationGraph {} changedImageRun).edges.all fun x=>
      x.kind == .protectedExecutable || x.kind == .firstExecutedAs || x.sourceNode.isNone ||
        x.destinationNode != 2)=true:=by decide +kernel
  have hone:=all_eq_true.mp hall x hx
  simp [hkind,hkind',hsrc,hdst] at hone

/-- The edges name no node of the generation before, and code that writes itself is its own
ancestor. -/
theorem ancestry_incomplete :
    (¬∀timeline id g, Has (buildMaterializationGraph {} timeline) id (g+1) → 1≤g →
      ∃m, Has (buildMaterializationGraph {} timeline) m g ∧
        Relation.TransGen (Ancestor (buildMaterializationGraph {} timeline)) m id) ∧
    ¬∀timeline id, ¬Relation.TransGen (Ancestor (buildMaterializationGraph {} timeline)) id id:=by
  constructor
  · intro hall
    obtain ⟨m,-,hm⟩:=hall changedImageRun 2 1 changedImage_has (Nat.le_refl _)
    obtain ⟨k,hk⟩ : ∃k,Ancestor (buildMaterializationGraph {} changedImageRun) k 2:=by
      cases hm with
      | single h=>exact ⟨m,h⟩
      | tail _ h=>exact ⟨_,h⟩
    exact changedImage_ancestors k hk
  · intro hall
    have hself : ((buildMaterializationGraph {} rewrittenRun).edges.any fun x=>
        x.kind == .materializedByRuntime && x.sourceNode == some 2 && x.destinationNode == 2)=true:=by
      decide +kernel
    obtain ⟨x,hx,hedge⟩:=any_eq_true.mp hself
    simp only [Bool.and_eq_true,beq_iff_eq] at hedge
    obtain ⟨⟨hkind,hsrc⟩,hdst⟩:=hedge
    refine hall rewrittenRun 2 (.single ⟨x,hx,?_,?_,hsrc,hdst⟩)
    · rw [hkind]
      exact fun h=>nomatch h
    · rw [hkind]
      exact fun h=>nomatch h

/-- The changed image is the second generation of a run. -/
theorem generations_chained_changedImage :
    ∃m, Has (buildMaterializationGraph {} changedImageRun) m 1 ∧
      CountsFrom (buildMaterializationGraph {} changedImageRun).edges 2 m 1:=
  (generations_chained {} changedImageRun (by decide +kernel)).1 2 1 changedImage_has (Nat.le_refl _)

end AutoRefirst.Materialization
