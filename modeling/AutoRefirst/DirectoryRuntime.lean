import AutoRefirst.RuntimePlan
import AutoRefirst.DirectoryReportIndex
import Mathlib.Algebra.BigOperators.Group.List.Basic
import Mathlib.Algebra.Order.Ring.Nat

/-!
# Runtime execution over a directory

`execute_directory_runtime` walks the ranked candidates of a directory once. A candidate is
executed when its report selects a runtime step, its tier is allowed, and both the target
limit and the time budget have room; each refusal has its own state.
-/

namespace AutoRefirst.DirectoryRuntime
open List

open DirectoryRelationships (DirectoryCandidate PriorityTier)

inductive RunMode where
  | auto | trace | unpack | pythonProbe
  deriving DecidableEq, Repr

/-- The options that directory runs read. -/
structure Options where
  (runRequested apply runAll : Bool := false)
  runMode : RunMode := .auto
  timeoutMs : UInt32 := 15000
  deriving DecidableEq, Repr

inductive RuntimeState where
  | notRequested | skippedStaticNotExecutable | skippedNoStaticReport | skippedPriority
  | skippedTargetLimit | skippedRuntimeBudget | skippedByRuntimePlan | unpackedValidatedApplied
  | timedOut | completed | completedAuxiliaryProbe
  deriving DecidableEq, Repr

structure RuntimeCandidate extends DirectoryCandidate where
  runtimeEligible : Bool := false
  runtimeEligibilityReason : String := ""
  runtimeSelected : Bool := false
  runtimeState : RuntimeState := .notRequested
  runtimeSkipReason : String := ""
  runtimeElapsedMs : UInt64 := 0
  deriving DecidableEq, Repr

structure RankedPlan where
  maxRuntimeTargets : UInt32 := 4
  totalRuntimeBudgetMs : UInt64 := 45000
  candidates : List RuntimeCandidate
  deriving DecidableEq, Repr

/-- The machine that the program runs on. A run of a target may change the world and the
report of the target in any way. -/
structure Host (World : Type*) where
  platform : Platform
  samePath : NativePath → NativePath → Bool
  hasExecutePermission : World → NativePath → Bool
  (executeRuntimePlan analyzeRuntimeChildren
    : World → AnalysisReport → NativePath → Options → World×AnalysisReport)
  elapsedMs : World → World → UInt64

def runtimePlanningRequest (opt : Options) : RuntimePlanningRequest where
  requested := opt.runRequested
  applyRequested := opt.apply
  legacyTrace := opt.runMode == .trace
  legacyUnpack := opt.runMode == .unpack
  forcedPythonProbe := opt.runMode == .pythonProbe
  timeoutMs := opt.timeoutMs

def satAdd (a b : UInt64) : UInt64 :=
  if b > 0xffffffffffffffff-a then 0xffffffffffffffff else a+b

structure RuntimeLoop (World : Type*) where
  used : UInt64
  targets : UInt32
  reports : List AnalysisReport
  world : World

/-- What the loop did with a candidate. -/
inductive Outcome where
  | kept | noStaticReport | notExecutable | lowPriority | targetLimit | runtimeBudget
  | executed (timeoutMs : UInt32)
  deriving DecidableEq, Repr

/-- A turn of the loop, with the candidate as the turn leaves it. -/
structure Visit (World : Type*) where
  (before after : RuntimeLoop World)
  candidate : RuntimeCandidate
  outcome : Outcome

/-- A turn that runs nothing. -/
def Visit.pass {World : Type*} (s : RuntimeLoop World) (c : RuntimeCandidate)
    (outcome : Outcome) : Visit World := ⟨s,s,c,outcome⟩

namespace RuntimeCandidate

def skip (c : RuntimeCandidate) (state : RuntimeState) (reason : String) : RuntimeCandidate :=
  {c with runtimeState:=state,runtimeSkipReason:=reason}

def skipStatic (c : RuntimeCandidate) (preview : RuntimePlan) : RuntimeCandidate :=
  let reason := preview.runtimeEligibilityReason
  let probe := ((preview.step .cpythonCompilerProbe).map (·.reason)).getD ""
  c.skip .skippedStaticNotExecutable
    (if !probe.isEmpty && probe != reason then reason++"; "++probe else reason)

def noteProbe (c : RuntimeCandidate) (probeSelected : Bool) : RuntimeCandidate :=
  if probeSelected && !c.runtimeEligible then
    { c with
      runtimeEligible:=true
      runtimeEligibilityReason :=
        "auxiliary CPython compiler probe can answer an unresolved static semantic question" }
  else c

def conclude (c : RuntimeCandidate) (report : AnalysisReport) : RuntimeCandidate :=
  if report.replacementPerformed then {c with runtimeState:=.unpackedValidatedApplied}
  else if report.runtimeRequested then
    {c with runtimeState := if report.runtimeTimedOut then .timedOut else .completed}
  else if report.runtimePlan.selects .cpythonCompilerProbe then
    {c with runtimeState:=.completedAuxiliaryProbe}
  else c.skip .skippedByRuntimePlan report.runtimePlan.runtimeEligibilityReason

end RuntimeCandidate

section

variable {World : Type*} (h : Host World) (opt : Options) (plan : RankedPlan)

def targetTimeout (used : UInt64) : UInt32 :=
  (min opt.timeoutMs.toUInt64
    (min (plan.totalRuntimeBudgetMs-used) 0xffffffff)).toUInt32

variable (reports : List AnalysisReport)

def findReport (path : NativePath) : Option (ℕ×AnalysisReport) :=
  (reports.zipIdx.find? fun r => h.samePath r.1.input path).map fun r => (r.2,r.1)

def preview (s : RuntimeLoop World) (report : AnalysisReport) : RuntimePlan :=
  buildRuntimePlan h.platform (h.hasExecutePermission s.world report.input) report
    (runtimePlanningRequest opt)

def runTarget (s : RuntimeLoop World) (c : RuntimeCandidate) (i : ℕ) (report : AnalysisReport) :
    Visit World :=
  let ropt := {opt with timeoutMs:=targetTimeout opt plan s.used}
  let ran := h.executeRuntimePlan s.world report c.path ropt
  let analyzed := h.analyzeRuntimeChildren ran.1 ran.2 c.path ropt
  { before:=s
    after :=
      { used:=min plan.totalRuntimeBudgetMs (satAdd s.used ropt.timeoutMs.toUInt64)
        targets:=s.targets+1,reports:=s.reports.set i analyzed.2,world:=analyzed.1 }
    candidate:=RuntimeCandidate.conclude
      { c with
        runtimeSelected:=true,runtimeElapsedMs:=h.elapsedMs s.world analyzed.1 } analyzed.2
    outcome:=.executed ropt.timeoutMs }

def visit (s : RuntimeLoop World) (c : RuntimeCandidate) : Visit World :=
  match findReport h s.reports c.path with
  | none =>
    if c.runtimeState = .skippedStaticNotExecutable then .pass s c .kept
    else .pass s (c.skip .skippedNoStaticReport "static report unavailable") .noStaticReport
  | some (i,report) =>
    let preview := preview h opt s report
    let genericSelected := preview.selects .genericRuntimeTrace
    let probeSelected := preview.selects .cpythonCompilerProbe
    if !genericSelected && !probeSelected then .pass s (c.skipStatic preview) .notExecutable
    else
      let c := c.noteProbe probeSelected
      if !opt.runAll ∧ c.priorityTier = .tier3 then
        .pass s (c.skip .skippedPriority ("Tier 3 is static-only under the conservative " ++
          "directory runtime policy; use --run-all to override")) .lowPriority
      else if !opt.runAll ∧ s.targets ≥ plan.maxRuntimeTargets then
        .pass s (c.skip .skippedTargetLimit "directory runtime target limit reached") .targetLimit
      else if s.used ≥ plan.totalRuntimeBudgetMs then
        .pass s (c.skip .skippedRuntimeBudget "directory total runtime budget exhausted")
          .runtimeBudget
      else runTarget h opt plan s c i report

def visits (s : RuntimeLoop World) : List RuntimeCandidate → List (Visit World)
  | [] => []
  | c::rest =>
    let v := visit h opt plan s c
    v :: visits v.after rest

def startLoop (world : World) : RuntimeLoop World :=
  ⟨0,0,reports,world⟩

def executeDirectoryRuntime (world : World) : List (Visit World) :=
  if opt.runRequested then visits h opt plan (startLoop reports world) plan.candidates
  else plan.candidates.map fun c => .pass (startLoop reports world) c .kept

end

namespace Outcome

def timeouts : Outcome → Option UInt32
  | .executed t => some t
  | _ => none

variable (o : Outcome)

/-- The candidate was run. -/
def isExecuted : Bool := o.timeouts.isSome

def passedOver : Bool := o == .targetLimit || o == .runtimeBudget

/-- The candidate came to the limits: its report selects a step and its tier is allowed. -/
def eligible : Bool := o.isExecuted || o.passedOver

end Outcome

section

variable {World : Type*} {h : Host World} {opt : Options} {plan : RankedPlan}
  {s : RuntimeLoop World} {c : RuntimeCandidate}

def handed (vs : List (Visit World)) : List UInt32 := vs.filterMap fun v => v.outcome.timeouts

/-- The report of a candidate selects a runtime step, and the tier of the candidate is
allowed. -/
def Eligible (h : Host World) (opt : Options) (s : RuntimeLoop World) (c : DirectoryCandidate) :
    Prop :=
  (∃ i report, findReport h s.reports c.path = some (i,report) ∧
    ((preview h opt s report).selects .genericRuntimeTrace = true ∨
      (preview h opt s report).selects .cpythonCompilerProbe = true)) ∧
  (opt.runAll = false → c.priorityTier ≠ .tier3)

/-- No further candidate can be executed. -/
def Blocked (opt : Options) (plan : RankedPlan) (s : RuntimeLoop World) : Prop :=
  (opt.runAll=false ∧ s.targets ≥ plan.maxRuntimeTargets) ∨
    s.used ≥ plan.totalRuntimeBudgetMs

theorem conclude_place (report:AnalysisReport) :
    (c.conclude report).toDirectoryCandidate=c.toDirectoryCandidate:=by
  unfold RuntimeCandidate.conclude
  split
  · rfl
  · split
    · rfl
    · split <;> rfl

theorem noteProbe_place (b:Bool) :
    (c.noteProbe b).toDirectoryCandidate=c.toDirectoryCandidate:=by
  unfold RuntimeCandidate.noteProbe
  split <;> rfl

structure Turn (h : Host World) (opt : Options) (plan : RankedPlan) (s : RuntimeLoop World)
    (c : RuntimeCandidate) (v : Visit World) : Prop where
  before : v.before=s
  place : v.candidate.toDirectoryCandidate=c.toDirectoryCandidate
  eligible : v.outcome.eligible=true ↔ Eligible h opt s c.toDirectoryCandidate
  ran : (v.outcome.isExecuted=false ∧ v.after=s ∧
      (v.outcome.passedOver=true → Blocked opt plan s)) ∨
    (¬Blocked opt plan s ∧ ∃ d i report, v = runTarget h opt plan s d i report)

theorem Turn.pass {d:RuntimeCandidate} {o:Outcome}
    (hplace:d.toDirectoryCandidate=c.toDirectoryCandidate) (hran:o.isExecuted=false)
    (hover:o.passedOver=true → Blocked opt plan s)
    (heligible:o.passedOver=true ↔ Eligible h opt s c.toDirectoryCandidate) :
    Turn h opt plan s c (.pass s d o) where
  before:=rfl
  place:=hplace
  eligible:=by
    rw [← heligible]
    simp [Visit.pass,Outcome.eligible,hran]
  ran := .inl ⟨hran,rfl,hover⟩

theorem eligible_iff {i:ℕ} {report:AnalysisReport}
    (hfound:findReport h s.reports c.path=some (i,report)) :
    Eligible h opt s c.toDirectoryCandidate ↔
      ((preview h opt s report).selects .genericRuntimeTrace=true ∨
        (preview h opt s report).selects .cpythonCompilerProbe=true) ∧
      (opt.runAll=false → c.priorityTier≠.tier3):=by
  constructor
  · rintro ⟨⟨j,other,hother,hselected⟩,htier⟩
    cases hfound.symm.trans hother
    exact ⟨hselected,htier⟩
  · rintro ⟨hselected,htier⟩
    exact ⟨⟨i,report,hfound,hselected⟩,htier⟩

theorem turn_visit (h:Host World) (opt:Options) (plan:RankedPlan) (s:RuntimeLoop World)
    (c:RuntimeCandidate) :
    Turn h opt plan s c (visit h opt plan s c):=by
  unfold visit
  split
  · rename_i hnone
    have hnot : ¬Eligible h opt s c.toDirectoryCandidate:=by
      rintro ⟨⟨i,report,hfound,-⟩,-⟩
      exact nomatch hnone.symm.trans hfound
    split
    · exact .pass rfl rfl nofun (by simpa [Outcome.passedOver] using hnot)
    · exact .pass rfl rfl nofun (by simpa [Outcome.passedOver] using hnot)
  · rename_i i report hfound
    have hiff : Eligible h opt s c.toDirectoryCandidate ↔ _:=eligible_iff hfound
    dsimp only
    split
    · rename_i hstatic
      refine .pass rfl rfl nofun ⟨nofun,fun he=>?_⟩
      have hselected:=(hiff.mp he).1
      simp_all
    · rename_i hselected
      have hchosen : (preview h opt s report).selects .genericRuntimeTrace=true ∨
          (preview h opt s report).selects .cpythonCompilerProbe=true:=by
        by_contra hcon
        rw [not_or] at hcon
        exact hselected (by simp [hcon.1,hcon.2])
      have hplace:=noteProbe_place (c:=c)
        ((preview h opt s report).selects .cpythonCompilerProbe)
      split
      · rename_i htier
        refine .pass hplace rfl nofun ⟨nofun,fun he=>?_⟩
        exact absurd (hplace▸htier.2) ((hiff.mp he).2 (by simpa using htier.1))
      · rename_i htier
        have heligible : Eligible h opt s c.toDirectoryCandidate:=
          hiff.mpr ⟨hchosen,fun hall h3=>htier ⟨by simp [hall],hplace▸h3⟩⟩
        split
        · rename_i hlimit
          exact .pass hplace rfl (fun _ => .inl ⟨by simpa using hlimit.1,hlimit.2⟩)
            ⟨fun _=>heligible,fun _=>rfl⟩
        · rename_i hlimit
          split
          · rename_i hused
            exact .pass hplace rfl (fun _ => .inr hused) ⟨fun _=>heligible,fun _=>rfl⟩
          · rename_i hused
            refine ⟨rfl,(conclude_place _).trans hplace,⟨fun _=>heligible,fun _=>rfl⟩,
              .inr ⟨?_,_,i,report,rfl⟩⟩
            rintro (⟨hall,htargets⟩ | hfull)
            · exact hlimit ⟨by simp [hall],htargets⟩
            · exact hused hfull

theorem toNat_min (a b:UInt64) : (min a b).toNat=min a.toNat b.toNat:=by
  change (if a ≤ b then a else b).toNat = _
  split
  · rename_i hle
    exact (min_eq_left (UInt64.le_iff_toNat_le.mp hle)).symm
  · rename_i hle
    exact (min_eq_right (le_of_not_ge fun h=>hle (UInt64.le_iff_toNat_le.mpr h))).symm

theorem toNat_targetTimeout_le (opt:Options) (plan:RankedPlan) (used:UInt64) :
    (targetTimeout opt plan used).toNat≤(plan.totalRuntimeBudgetMs-used).toNat:=by
  rw [targetTimeout,UInt64.toNat_toUInt32,toNat_min,toNat_min]
  exact (Nat.mod_le _ _).trans (by omega)

theorem toNat_satAdd {a b:UInt64} (hab:a.toNat+b.toNat<2^64) :
    (satAdd a b).toNat = a.toNat+b.toNat:=by
  have ha:=a.toNat_lt
  have hsub : (0xffffffffffffffff-a).toNat=2^64-1-a.toNat:=by
    rw [UInt64.toNat_sub_of_le _ _ (by rw [UInt64.le_iff_toNat_le];simp;omega)]
    simp
  unfold satAdd
  rw [if_neg (by rw [gt_iff_lt,UInt64.lt_iff_toNat_lt,hsub];omega),UInt64.toNat_add]
  omega

theorem runTarget_spec (h:Host World) (d:RuntimeCandidate) (i:ℕ) (report:AnalysisReport)
    (hroom:¬Blocked opt plan s) :
    (runTarget h opt plan s d i report).outcome.isExecuted=true ∧
    ∃t,(runTarget h opt plan s d i report).outcome.timeouts=some t ∧
      t.toNat + s.used.toNat ≤ plan.totalRuntimeBudgetMs.toNat ∧
      (runTarget h opt plan s d i report).after.used.toNat = s.used.toNat+t.toNat ∧
      (opt.runAll=false → s.targets.toNat<plan.maxRuntimeTargets.toNat ∧
        (runTarget h opt plan s d i report).after.targets.toNat = s.targets.toNat+1):=by
  simp only [Blocked,not_or,not_and,ge_iff_le,UInt64.le_iff_toNat_le,
    UInt32.le_iff_toNat_le,not_le] at hroom
  obtain ⟨htargets,hused⟩:=hroom
  have ht:=toNat_targetTimeout_le opt plan s.used
  rw [UInt64.toNat_sub_of_le _ _ (UInt64.le_iff_toNat_le.mpr hused.le)] at ht
  have hsum:=toNat_satAdd (a:=s.used) (b:=(targetTimeout opt plan s.used).toUInt64)
    (by rw [UInt32.toNat_toUInt64];have:=plan.totalRuntimeBudgetMs.toNat_lt;omega)
  rw [UInt32.toNat_toUInt64] at hsum
  refine ⟨rfl,targetTimeout opt plan s.used,rfl,by omega,?_,fun hall=>?_⟩
  · change (min plan.totalRuntimeBudgetMs _).toNat = _
    rw [toNat_min,hsum]
    omega
  · have hlt:=htargets hall
    refine ⟨hlt,?_⟩
    change (s.targets+1).toNat=_
    have hmax:=plan.maxRuntimeTargets.toNat_lt
    rw [UInt32.toNat_add]
    exact Nat.mod_eq_of_lt (by simpa using by omega)

theorem visits_blocked (hblocked:Blocked opt plan s) (cs:List RuntimeCandidate) :
    ∀v∈visits h opt plan s cs,v.outcome.isExecuted=false:=by
  induction cs with
  | nil=>simp [visits]
  | cons c cs ih=>
    obtain ⟨hran,hafter,-⟩ | ⟨hroom,-⟩:=(turn_visit h opt plan s c).ran
    · simp only [visits,forall_mem_cons,hafter]
      exact ⟨hran,ih⟩
    · exact absurd hblocked hroom

theorem visits_order (h:Host World) (opt:Options) (plan:RankedPlan) (s:RuntimeLoop World)
    (cs:List RuntimeCandidate) :
    (visits h opt plan s cs).Pairwise fun v w=>
      v.outcome.passedOver=true → w.outcome.isExecuted=false:=by
  induction cs generalizing s with
  | nil=>exact .nil
  | cons c cs ih=>
    refine .cons (fun w hw hover=>?_) (ih _)
    obtain ⟨-,hafter,hblocked⟩ | ⟨-,d,i,report,hrun⟩:=(turn_visit h opt plan s c).ran
    · rw [hafter] at hw
      exact visits_blocked (hblocked hover) cs w hw
    · rw [hrun] at hover
      exact nomatch hover

theorem visits_place (cs:List RuntimeCandidate) :
    (visits h opt plan s cs).map (·.candidate.toDirectoryCandidate) =
      cs.map (·.toDirectoryCandidate):=by
  induction cs generalizing s with
  | nil=>rfl
  | cons c cs ih=>
    simp only [visits,map_cons,ih]
    rw [(turn_visit h opt plan s c).place]

theorem visits_eligible (h:Host World) (opt:Options) (plan:RankedPlan)
    (s:RuntimeLoop World) (cs:List RuntimeCandidate) :
    ∀v∈visits h opt plan s cs,v.outcome.eligible=true ↔
      Eligible h opt v.before v.candidate.toDirectoryCandidate:=by
  induction cs generalizing s with
  | nil=>simp [visits]
  | cons c cs ih=>
    have hturn:=turn_visit h opt plan s c
    simp only [visits,forall_mem_cons]
    refine ⟨?_,ih _⟩
    rw [hturn.before,hturn.place]
    exact hturn.eligible

theorem timeouts_of_idle {o:Outcome} (hidle:o.isExecuted=false) : o.timeouts=none:=by
  simpa [Outcome.isExecuted] using hidle

theorem visits_budget (cs:List RuntimeCandidate)
    (hused:s.used.toNat≤plan.totalRuntimeBudgetMs.toNat) :
    ((handed (visits h opt plan s cs)).map (·.toNat)).sum + s.used.toNat ≤
      plan.totalRuntimeBudgetMs.toNat:=by
  induction cs generalizing s with
  | nil=>simpa [visits,handed] using hused
  | cons c cs ih=>
    obtain ⟨hran,hafter,-⟩ | ⟨hroom,d,i,report,hrun⟩:=(turn_visit h opt plan s c).ran
    · have hnone:=timeouts_of_idle hran
      have hrest:=ih (s:=(visit h opt plan s c).after) (by rwa [hafter])
      simp only [visits,handed,filterMap_cons,hnone]
      rwa [hafter] at hrest ⊢
    · obtain ⟨-,t,htime,hroom,hused,-⟩:=runTarget_spec h d i report hroom
      rw [← hrun] at htime hused
      have hrest:=ih (s:=(visit h opt plan s c).after) (by omega)
      simp only [visits,handed,filterMap_cons,htime,map_cons,sum_cons]
      change t.toNat + ((handed _).map (·.toNat)).sum + _ ≤ _
      omega

theorem visits_targets (hall:opt.runAll=false) (cs:List RuntimeCandidate)
    (htargets:s.targets.toNat≤plan.maxRuntimeTargets.toNat) :
    (handed (visits h opt plan s cs)).length + s.targets.toNat ≤
      plan.maxRuntimeTargets.toNat:=by
  induction cs generalizing s with
  | nil=>simpa [visits,handed] using htargets
  | cons c cs ih=>
    obtain ⟨hran,hafter,-⟩ | ⟨hroom,d,i,report,hrun⟩:=(turn_visit h opt plan s c).ran
    · have hnone:=timeouts_of_idle hran
      have hrest:=ih (s:=(visit h opt plan s c).after) (by rwa [hafter])
      simp only [visits,handed,filterMap_cons,hnone]
      rwa [hafter] at hrest ⊢
    · obtain ⟨-,t,htime,-,-,hcount⟩:=runTarget_spec h d i report hroom
      rw [← hrun] at htime hcount
      obtain ⟨hlt,hnext⟩:=hcount hall
      have hrest:=ih (s:=(visit h opt plan s c).after) (by omega)
      simp only [visits,handed,filterMap_cons,htime,length_cons]
      change (handed _).length + 1 + _ ≤ _
      omega

/-- Where nothing that is met after a passed-over element is executed, the executed elements
are the first of the eligible ones. -/
theorem executed_prefix {vs:List (Visit World)}
    (horder:vs.Pairwise fun v w=>v.outcome.passedOver=true → w.outcome.isExecuted=false) :
    (vs.filter (·.outcome.isExecuted)) <+: (vs.filter (·.outcome.eligible)):=by
  induction horder with
  | nil=>exact prefix_rfl
  | @cons v vs hv _ ih=>
    cases hran : v.outcome.isExecuted with
    | true=>simpa [filter_cons,hran,Outcome.eligible] using ih
    | false=>
      cases hover : v.outcome.passedOver with
      | false=>simpa [filter_cons,hran,hover,Outcome.eligible] using ih
      | true=>
        have hnone : vs.filter (·.outcome.isExecuted)=[]:=by
          simpa [filter_eq_nil_iff] using fun w hw=>hv w hw hover
        simp [hran,hnone]

theorem directory_runtime_limits (h : Host World) (opt : Options) (plan : RankedPlan)
    (reports : List AnalysisReport) (world : World) :
    let vs := executeDirectoryRuntime h opt plan reports world
    vs.map (·.candidate.toDirectoryCandidate)=plan.candidates.map (·.toDirectoryCandidate) ∧
    (∀v∈vs,v.outcome.eligible=true ↔ Eligible h opt v.before v.candidate.toDirectoryCandidate) ∧
    (opt.runAll=false → (handed vs).length≤plan.maxRuntimeTargets.toNat) ∧
    (opt.runAll=false → ∀v∈vs,v.outcome.isExecuted=true → v.candidate.priorityTier≠.tier3) ∧
    ((handed vs).map (·.toNat)).sum≤plan.totalRuntimeBudgetMs.toNat ∧
    (vs.filter (·.outcome.isExecuted)) <+: (vs.filter (·.outcome.eligible)) ∧
    vs.Pairwise fun v w=>v.outcome.passedOver=true → w.outcome.isExecuted=false:=by
  intro vs
  have hvs : vs=executeDirectoryRuntime h opt plan reports world:=rfl
  clear_value vs
  cases hrun : opt.runRequested with
  | true=>
    simp only [executeDirectoryRuntime,hrun,if_true] at hvs
    subst hvs
    have helig:=visits_eligible h opt plan (startLoop reports world) plan.candidates
    have horder:=visits_order h opt plan (startLoop reports world) plan.candidates
    refine ⟨visits_place _,helig,fun hall=>?_,fun hall v hv hran=>?_,?_,
      executed_prefix horder,horder⟩
    · exact visits_targets (s:=startLoop reports world) hall _ (Nat.zero_le _)
    · exact ((helig v hv).mp (by simp [Outcome.eligible,hran])).2 hall
    · exact visits_budget (s:=startLoop reports world) _ (Nat.zero_le _)
  | false=>
    simp only [executeDirectoryRuntime,hrun,Bool.false_eq_true,if_false] at hvs
    have hidle : ∀v∈vs,∃c,v=Visit.pass (startLoop reports world) c .kept:=by
      intro v hv
      rw [hvs,List.mem_map] at hv
      obtain ⟨c,-,rfl⟩:=hv
      exact ⟨c,rfl⟩
    have hnone : handed vs=[]:=by
      refine filterMap_eq_nil_iff.mpr fun v hv=>?_
      obtain ⟨c,rfl⟩:=hidle v hv
      rfl
    have hran : ∀v∈vs,v.outcome.isExecuted=false:=by
      intro v hv
      obtain ⟨c,rfl⟩:=hidle v hv
      rfl
    have horder : vs.Pairwise fun v w=>
        v.outcome.passedOver=true → w.outcome.isExecuted=false:=
      pairwise_of_forall_mem_list fun v _ w hw _=>hran w hw
    refine ⟨?_,fun v hv=>?_,fun _=>by simp [hnone],fun _ v hv hex=>?_,by simp [hnone],
      executed_prefix horder,horder⟩
    · rw [hvs,List.map_map]
      rfl
    · obtain ⟨c,rfl⟩:=hidle v hv
      refine ⟨nofun,?_⟩
      rintro ⟨⟨i,report,-,hselected⟩,-⟩
      simp [preview,selects_generic,selects_probe,runtimePlanningRequest,hrun] at hselected
    · rw [hran v hv] at hex
      cases hex

end

end AutoRefirst.DirectoryRuntime
