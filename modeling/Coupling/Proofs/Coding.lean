import Mathlib.Data.List.Forall2
import Coupling.Java.Grammar.Network

/-!
# Steps that stand for elements

The steps of a rule stand for the elements of its right-hand side, one for each
(`Network.steps_coded`), and where they choose, the decision has as many targets as there are
alternatives. So what is asked of the elements of a grammar can be said of the steps of its network:
that they keep to `Limits`, for one.
-/

namespace Coupling.Java

mutual

/-- A step that stands for an element; `count` says how many targets a decision has. -/
inductive Element.Coded (count : Nat → Nat) : Option Label → Element → Step → Prop where
  | token {label : Option Label} {k : Kind} {place next : Nat} :
      Element.Coded count label (.token k) (.read place next (.single k) (Option.some k) label)
  | oneOf {label : Option Label} {ks : List Kind} {place next : Nat} :
      Element.Coded count label (.oneOf ks) (.read place next (.ofList ks) none label)
  | call {label : Option Label} {r : RuleName} {level place next : Nat} :
      Element.Coded count label (.call r level) (.call place next r level label)
  | labelled {label : Option Label} {l : Label} {e : Element} {s : Step} :
      Element.Coded count (Option.some l) e s → Element.Coded count label (.labelled l e) s
  | choice {label : Option Label} {alts : List (List Element)} {place decision : Nat}
      {codes : List (List Step)} :
      AltsCoded count alts codes → count decision = codes.length →
      Element.Coded count label (.choice alts) (.choose place decision codes)
  | optional {label : Option Label} {alts : List (List Element)} {place decision : Nat}
      {codes : List (List Step)} :
      AltsCoded count alts codes →
      Element.Coded count label (.optional alts) (.optionally place decision codes)
  | many {label : Option Label} {alts : List (List Element)} {again : Bool}
      {place back decision : Nat} {body : List Step} :
      TurnCoded count alts body →
      Element.Coded count label (.many alts) (.many again place back decision body)
  | some {label : Option Label} {alts : List (List Element)} {place back decision : Nat}
      {body : List Step} :
      TurnCoded count alts body →
      Element.Coded count label (.some alts) (.some place back decision body)

/-- Steps that stand for a sequence. -/
inductive SeqCoded (count : Nat → Nat) : List Element → List Step → Prop where
  | nil : SeqCoded count [] []
  | cons {e : Element} {es : List Element} {s : Step} {ss : List Step} :
      Element.Coded count none e s → SeqCoded count es ss → SeqCoded count (e :: es) (s :: ss)

/-- Alternatives of steps that stand for alternatives of elements. -/
inductive AltsCoded (count : Nat → Nat) : List (List Element) → List (List Step) → Prop where
  | nil : AltsCoded count [] []
  | cons {a : List Element} {as : List (List Element)} {c : List Step} {cs : List (List Step)} :
      SeqCoded count a c → AltsCoded count as cs → AltsCoded count (a :: as) (c :: cs)

/-- The steps of one turn of a loop: its only alternative, or a choice among several. -/
inductive TurnCoded (count : Nat → Nat) : List (List Element) → List Step → Prop where
  | only {a : List Element} {code : List Step} : SeqCoded count a code → TurnCoded count [a] code
  | among {alts : List (List Element)} {place decision : Nat} {codes : List (List Step)} :
      AltsCoded count alts codes →
      count decision = codes.length → TurnCoded count alts [.choose place decision codes]

end

variable {count : Nat → Nat}

variable {code : List Step} {α β : Type} {R : α → β → Prop} {xs : List α} {ys : List β}

theorem AltsCoded.exists_alt {alts : List (List Element)} {codes : List (List Step)}
    (h : AltsCoded count alts codes)
    (hcode : code ∈ codes) : ∃ a ∈ alts, SeqCoded count a code := by
  induction codes generalizing alts with
  | nil => cases hcode
  | cons c cs ih =>
    cases h with
    | cons hc hcs =>
      rcases List.mem_cons.mp hcode with rfl | hcode
      · exact ⟨_, List.mem_cons_self, hc⟩
      · obtain ⟨a, ha, hseq⟩ := ih hcs hcode
        exact ⟨a, List.mem_cons_of_mem _ ha, hseq⟩

theorem SeqCoded.concat {es : List Element} {e : Element} (h : SeqCoded count (es ++ [e]) code) :
    ∃ front s, code = front ++ [s] ∧ SeqCoded count es front ∧ e.Coded count none s := by
  induction es generalizing code with
  | nil =>
    cases h with
    | cons hs hnil =>
      cases hnil
      exact ⟨[], _, rfl, .nil, hs⟩
  | cons e' es ih =>
    cases h with
    | cons hs hrest =>
      obtain ⟨front, s', rfl, hfront, hs'⟩ := ih hrest
      exact ⟨_ :: front, s', rfl, .cons hs hfront, hs'⟩

theorem exists_of_forall₂ (h : List.Forall₂ R xs ys) {y : β} (hy : y ∈ ys) : ∃ x ∈ xs, R x y := by
  induction h with
  | nil => cases hy
  | cons hxy _ ih =>
    rcases List.mem_cons.mp hy with rfl | hy
    · exact ⟨_, List.mem_cons_self, hxy⟩
    · obtain ⟨x, hx, hR⟩ := ih hy
      exact ⟨x, List.mem_cons_of_mem _ hx, hR⟩

theorem AltsCoded.of_forall₂ {parts : α → List Element} {code : β → List Step}
    (h : List.Forall₂ R xs ys)
    (hR : ∀ x y, R x y → SeqCoded count (parts x) (code y)) :
    AltsCoded count (xs.map parts) (ys.map code) := by
  induction h with
  | nil => exact .nil
  | cons hxy _ ih => exact .cons (hR _ _ hxy) ih

/-- The steps of a primary: they give the node its form first. -/
def Primary.Coded (count : Nat → Nat) (p : Primary) (code : List Step) : Prop :=
  ∃ front, code = .become p.form :: front ∧ SeqCoded count p.parts front

/-- An operator with its form, its level and its steps. -/
def Operator.Coded (count : Nat → Nat) (o : Operator) (op : Form × Nat × Nat × List Step) : Prop :=
  op.1 = o.form ∧ op.2.1 = o.level ∧ SeqCoded count o.parts op.2.2.2

/-- Steps that stand for a right-hand side. Those of a climbing rule are a choice among its
primaries and the loop of its operators. -/
inductive Production.Coded (count : Nat → Nat) : Production → List Step → Prop where
  | only {parts : List Element} {steps : List Step} : SeqCoded count parts steps →
    Production.Coded count (.plain [parts]) steps
  | among {alts : List (List Element)} {place decision : Nat} {codes : List (List Step)} :
      AltsCoded count alts codes →
      count decision = codes.length →
      Production.Coded count (.plain alts) [.choose place decision codes]
  | climbing {primaries : List Primary} {operators : List Operator}
      {place decision entry back loop inner innerDecision : Nat}
      {codes : List (List Step)} {ops : List (Form × Nat × Nat × List Step)} :
      List.Forall₂ (Primary.Coded count) primaries codes → count decision = codes.length →
      List.Forall₂ (Operator.Coded count) operators ops → count innerDecision = ops.length →
      Production.Coded count (.climbing primaries operators)
        [.choose place decision codes, .climb false entry back loop inner innerDecision ops]

/-! ## What is laid out -/

/-- The decisions that were laid out have as many targets as `count` says. -/
def Layout.Counts (l : Layout) (count : Nat → Nat) : Prop :=
  ∀ d x, l.decisions[d]? = some x → count d = x.targets.length

namespace Build

variable {α β : Type} {P : (Nat → Nat) → β → Prop}

/-- What holds of the result of a build, whatever was laid out before and whatever comes after;
`count` is about all decisions, those that come after included. -/
def Gives (P : (Nat → Nat) → α → Prop) (x : Build α) : Prop := ∀ r l count, (x r l).2.Counts count →
  l.Counts count ∧ l.places.size ≤ (x r l).2.places.size ∧ P count (x r l).1

variable {x : Build α} {f : α → Build β} {edges : List Edge} {p : Nat}

theorem gives_bind {Q : (Nat → Nat) → α → Prop} (hx : Gives Q x)
    (hf : ∀ a, Gives (fun count b => Q count a → P count b) (f a)) : Gives P (x >>= f) := by
  intro r l count h
  obtain ⟨hmid, hle, hP⟩ := hf (x r l).1 r (x r l).2 count h
  obtain ⟨hl, hle', hQ⟩ := hx r l count hmid
  exact ⟨hl, Nat.le_trans hle' hle, hP hQ⟩

theorem gives_pure {b : β} (h : ∀ count, P count b) : Gives P (pure b) :=
  fun _ _ count hl => ⟨hl, Nat.le_refl _, h count⟩

theorem gives_then (hx : Gives (fun _ _ => True) x) (hf : ∀ a, Gives P (f a)) :
    Gives P (x >>= f) :=
  gives_bind hx fun a r l count h =>
    have ⟨hl, hle, hP⟩ := hf a r l count h
    ⟨hl, hle, fun _ => hP⟩

theorem gives_place {f : Nat → Build β} (hf : ∀ p, Gives P (f p)) :
    Gives P (Build.place edges >>= f) :=
  gives_then (fun _ l _ hl => ⟨hl, by simp [Build.place], trivial⟩) hf

theorem gives_connect {f : Unit → Build β} (hf : ∀ u, Gives P (f u)) :
    Gives P (Build.connect p edges >>= f) :=
  gives_then (fun _ l _ hl => ⟨hl, by simp [Build.connect], trivial⟩) hf

theorem gives_climbing {c : Climb} {f : Unit → Build β} (hf : ∀ u, Gives P (f u)) :
    Gives P (Build.climbing c >>= f) :=
  gives_then (fun _ _ _ hl => ⟨hl, Nat.le_refl _, trivial⟩) hf

theorem gives_decision {targets : List Nat} {f : Nat → Build β}
    (hf : ∀ d, Gives (fun count b => count d = targets.length → P count b) (f d)) :
    Gives P (Build.decision p targets >>= f) := by
  refine gives_bind (Q := fun count d => count d = targets.length) (fun r l count hl => ?_) hf
  refine ⟨fun d x hx => hl d x ?_, Nat.le_refl _, ?_⟩
  · exact (Array.getElem?_push_lt (Array.getElem?_eq_some_iff.mp hx).1).trans
      ((Array.getElem?_eq_getElem (Array.getElem?_eq_some_iff.mp hx).1).symm.trans hx)
  · exact hl l.decisions.size _ Array.getElem?_push_size

theorem gives_mapM {R : (Nat → Nat) → α → β → Prop} (xs : List α)
    (hf : ∀ a, Gives (fun count => R count a) (f a)) :
    Gives (fun count => List.Forall₂ (R count) xs) (xs.mapM f) := by
  induction xs with
  | nil => exact gives_pure fun _ => .nil
  | cons x xs ih =>
    rw [List.mapM_cons]
    exact gives_bind (hf x) fun b => gives_bind ih fun bs => gives_pure fun _ hbs hb => .cons hb hbs

end Build

section LayOut

open Build

theorem blockBody_coded {alts : List (List Element)} (start : Nat)
    (branches : List (Nat × List Step)) :
    Gives (fun count body => AltsCoded count alts (branches.map (·.2)) → TurnCoded count alts body)
      (blockBody start branches) := by
  unfold blockBody
  split
  · refine gives_pure fun _ h => ?_
    cases h with
    | cons hseq hnil =>
      cases hnil
      exact .only hseq
  · exact gives_decision fun d => gives_pure fun _ hd h => .among h (by simpa using hd)

mutual

theorem Element.layOut_coded (label : Option Label) : ∀ (e : Element) (next : Nat),
    Gives (fun count x => e.Coded count label x.2) (e.layOut label next)
  | .token k, next => by
    rw [Element.layOut]
    exact gives_place fun _ => gives_pure fun _ => .token
  | .oneOf ks, next => by
    rw [Element.layOut]
    exact gives_place fun _ => gives_pure fun _ => .oneOf
  | .call r level, next => by
    rw [Element.layOut]
    exact gives_place fun _ => gives_pure fun _ => .call
  | .labelled l e, next => by
    rw [Element.layOut]
    exact fun r layout count h =>
      have ⟨hl, hle, he⟩ := Element.layOut_coded (Option.some l) e next r layout count h
      ⟨hl, hle, .labelled he⟩
  | .choice alts, next => by
    rw [Element.layOut]
    refine gives_place fun stop => gives_bind (layOutAlts_coded alts stop) fun branches => ?_
    exact gives_place fun _ => gives_decision fun _ => gives_pure fun _ hd hb =>
      .choice hb (by simpa using hd)
  | .optional alts, next => by
    rw [Element.layOut]
    refine gives_place fun stop => gives_bind (layOutAlts_coded alts stop) fun branches => ?_
    exact gives_place fun _ => gives_decision fun _ => gives_pure fun _ _ hb => .optional hb
  | .many alts, next => by
    rw [Element.layOut]
    refine gives_place fun exit => gives_place fun entry => gives_place fun back =>
      gives_place fun stop => ?_
    refine gives_bind (layOutAlts_coded alts stop) fun branches => gives_place fun start =>
      gives_connect fun _ => ?_
    exact gives_decision fun d => gives_bind (blockBody_coded start branches) fun body =>
      gives_pure fun _ hbody _ hb => .many (hbody hb)
  | .some alts, next => by
    rw [Element.layOut]
    refine gives_place fun exit => gives_place fun back => gives_place fun stop => ?_
    refine gives_bind (layOutAlts_coded alts stop) fun branches => gives_place fun start =>
      gives_connect fun _ => ?_
    exact gives_decision fun d => gives_bind (blockBody_coded start branches) fun body =>
      gives_pure fun _ hbody _ hb => .some (hbody hb)

theorem layOutSeq_coded : ∀ (es : List Element) (next : Nat),
    Gives (fun count x => SeqCoded count es x.2) (layOutSeq es next)
  | [], next => by
    rw [layOutSeq]
    exact gives_pure fun _ => .nil
  | e :: es, next => by
    rw [layOutSeq]
    exact gives_bind (layOutSeq_coded es next) fun rest =>
        gives_bind (Element.layOut_coded none e _) fun x =>
      gives_pure fun _ hx hrest => .cons hx hrest

theorem layOutAlts_coded : ∀ (alts : List (List Element)) (stop : Nat),
    Gives (fun count branches => AltsCoded count alts (branches.map (·.2))) (layOutAlts alts stop)
  | [], stop => by
    rw [layOutAlts]
    exact gives_pure fun _ => .nil
  | a :: as, stop => by
    rw [layOutAlts]
    have hboth (next : Nat) : Gives (fun count branches =>
        AltsCoded count (a :: as) (branches.map (·.2)))
        (do let b ← layOutSeq a next
            let bs ← layOutAlts as stop
            return b :: bs) :=
      gives_bind (layOutSeq_coded a next) fun b => gives_bind (layOutAlts_coded as stop) fun bs =>
        gives_pure fun _ hbs hb => .cons hb hbs
    split
    · exact gives_place hboth
    · exact hboth stop

end

theorem layOutBranch_coded (parts : List Element) (stop : Nat) :
    Gives (fun count x => SeqCoded count parts x.2) (layOutBranch parts stop) := by
  unfold layOutBranch
  split
  · exact gives_place fun next => layOutSeq_coded parts next
  · exact layOutSeq_coded parts stop

theorem layOutOperators_coded (operators : List Operator) (stop : Nat) :
    Gives (fun count x => List.Forall₂ (Operator.Coded count) operators x.2)
      (layOutOperators operators stop) := by
  refine gives_bind (gives_mapM (R := Operator.Coded) operators fun o => ?_) fun ops =>
    gives_place fun _ => gives_pure fun _ hops => hops
  exact gives_bind (layOutBranch_coded o.parts stop) fun b => gives_place fun _ =>
    gives_pure fun _ hb => ⟨rfl, rfl, hb⟩

theorem layOutLoop_coded (operators : List Operator) (next : Nat) :
    Gives (fun count x => ∃ entry back loop inner innerDecision ops,
      x.2.2 = .climb false entry back loop inner innerDecision ops ∧
        List.Forall₂ (Operator.Coded count) operators ops ∧ count innerDecision = ops.length)
      (layOutLoop operators next) := by
  refine gives_place fun exit => gives_place fun entry => gives_place fun back =>
    gives_place fun last => ?_
  refine gives_bind (layOutOperators_coded operators last) fun x => gives_connect fun _ => ?_
  exact gives_decision fun innerDecision => gives_decision fun loop =>
    gives_pure fun _ _ hinner hops => ⟨_, _, _, _, _, _, rfl, hops, by simpa using hinner⟩

theorem layOutPrimaries_coded (primaries : List Primary) (stop : Nat) :
    Gives (fun count x => ∃ place decision codes, x.2 = .choose place decision codes ∧
      List.Forall₂ (Primary.Coded count) primaries codes ∧ count decision = codes.length)
      (layOutPrimaries primaries stop) := by
  have hprimary (p : Primary) : Gives (fun count x => Primary.Coded count p x.2)
      (do let b ← layOutBranch p.parts stop
          return (b.1, Step.become p.form :: b.2)) :=
    gives_bind (layOutBranch_coded p.parts stop) fun b => gives_pure fun _ hb => ⟨b.2, rfl, hb⟩
  refine gives_bind (gives_mapM primaries hprimary) fun prims => gives_place fun start =>
    gives_decision fun d => ?_
  exact gives_pure fun _ hd hprims => ⟨_, _, _, rfl, List.forall₂_map_right_iff.mpr hprims,
    by simpa using hd⟩

/-- **The steps of a rule stand for its right-hand side.** -/
theorem Production.layOut_coded (p : Production) : Gives (fun count => p.Coded count) p.layOut := by
  unfold Production.layOut
  refine gives_then (fun _ _ _ hl => ⟨hl, Nat.le_refl _, trivial⟩) fun r => ?_
  split
  · next parts => exact gives_place fun stop => gives_bind (layOutSeq_coded parts stop) fun b =>
      gives_connect fun _ => gives_pure fun _ hb => .only hb
  · next alts _ =>
    refine gives_bind (Element.layOut_coded none (.choice alts) r.stop) fun b =>
        gives_connect fun _ =>
      gives_pure fun _ hb => ?_
    obtain ⟨first, step⟩ := b
    cases hb with
    | choice halts hd => exact .among halts hd
  · next primaries operators =>
    refine gives_bind (layOutLoop_coded operators r.stop) fun x => gives_place fun primaryEnd => ?_
    refine gives_bind (layOutPrimaries_coded primaries primaryEnd) fun y => gives_connect fun _ =>
      gives_climbing fun _ => ?_
    refine gives_pure fun _ hy hx => ?_
    obtain ⟨entry, back, loop, inner, innerDecision, ops, hx, hops, hinner⟩ := hx
    obtain ⟨place, decision, codes, hy, hprims, hd⟩ := hy
    rw [hx, hy]
    exact .climbing hprims hd hops hinner

end LayOut

/-! ## The steps of a network -/

theorem RuleName.getElem?_all (r : RuleName) : RuleName.all[r.index]? = some r := by
  cases r <;> rfl

/-- The rules that were laid out have their steps in the same order. -/
theorem layOutRules_coded {grammar : RuleName → Production} (rules done : List RuleName)
    (start : Array (List Step) × Layout) (h : (layOutRules grammar rules start).2.Counts count) :
    start.2.Counts count ∧ start.2.places.size ≤ (layOutRules grammar rules start).2.places.size ∧
      (List.Forall₂ (fun r steps => (grammar r).Coded count steps) done start.1.toList →
        List.Forall₂ (fun r steps => (grammar r).Coded count steps) (done ++ rules)
          (layOutRules grammar rules start).1.toList) := by
  induction rules generalizing done start with
  | nil => exact ⟨h, Nat.le_refl _, fun hstart => by rw [List.append_nil]; exact hstart⟩
  | cons r rules ih =>
    obtain ⟨hmid, hle, hrest⟩ := ih (done ++ [r]) _ h
    obtain ⟨hl, hle', hr⟩ := (grammar r).layOut_coded r start.2 count hmid
    refine ⟨hl, Nat.le_trans hle' hle, fun hstart => ?_⟩
    rw [List.append_cons]
    refine hrest ?_
    rw [Array.toList_push]
    exact List.rel_append hstart (.cons hr .nil)

namespace Network

/-- How many targets a decision of a network has. -/
def targetCount (net : Network) (d : Nat) : Nat := (net.decision d).targets.length

variable (grammar : RuleName → Production)

theorem code_ofGrammar : (ofGrammar grammar).code =
    (layOutRules grammar RuleName.all (#[], .ends)).1 := rfl

theorem counts_ofGrammar :
    (layOutRules grammar RuleName.all (#[], .ends)).2.Counts (ofGrammar grammar).targetCount := by
  intro d x hx
  rw [targetCount, decision, show (ofGrammar grammar).decisions[d]? = _ from Array.getElem?_map, hx]
  rfl

/-- **The steps of a network stand for the right-hand sides of its grammar.** -/
theorem steps_coded (rule : RuleName) :
    (grammar rule).Coded (ofGrammar grammar).targetCount ((ofGrammar grammar).steps rule) := by
  obtain ⟨-, -, hlaid⟩ := layOutRules_coded RuleName.all [] (#[], .ends) (counts_ofGrammar grammar)
  obtain ⟨hlt, hrule⟩ := List.getElem?_eq_some_iff.mp (RuleName.getElem?_all rule)
  have hall := hlaid .nil
  have hsize : rule.index < (layOutRules grammar RuleName.all (#[], .ends)).1.toList.length :=
    hall.length_eq ▸ hlt
  have hrule' := hall.get hlt hsize
  rw [List.get_eq_getElem, List.get_eq_getElem] at hrule'
  simp only [List.nil_append, hrule] at hrule'
  rw [steps, code_ofGrammar, ← Array.getElem?_toList, List.getElem?_eq_getElem hsize]
  exact hrule'

/-- There are places for the start and the stop of every rule. -/
theorem le_places : 2 * RuleName.all.length ≤ (ofGrammar grammar).places.size := by
  obtain ⟨-, hle, -⟩ := layOutRules_coded RuleName.all [] (#[], .ends) (counts_ofGrammar grammar)
  refine Nat.le_trans (Nat.le_of_eq ?_) hle
  simp [Layout.ends, Nat.mul_comm]

end Network

/-! ## Limits -/

/-- What steps may do: which tokens they read, which rules they call and which forms they give to
their node. -/
structure Limits where
  reads : KindSet → Bool
  calls : RuleName → Bool
  forms : Form → Bool

mutual

/-- Whether an element keeps to limits. -/
def Element.keeps (l : Limits) : Element → Bool
  | .token k => l.reads (.single k)
  | .oneOf ks => l.reads (.ofList ks)
  | .call r _ => l.calls r
  | .labelled _ e => e.keeps l
  | .choice alts => altsKeep l alts
  | .optional alts => altsKeep l alts
  | .many alts => altsKeep l alts
  | .some alts => altsKeep l alts

def seqKeeps (l : Limits) : List Element → Bool
  | [] => true
  | e :: es => e.keeps l && seqKeeps l es

def altsKeep (l : Limits) : List (List Element) → Bool
  | [] => true
  | a :: as => seqKeeps l a && altsKeep l as

end

/-- Whether a right-hand side keeps to limits. -/
def Production.keeps (l : Limits) : Production → Bool
  | .plain alts => altsKeep l alts
  | .climbing primaries operators =>
    primaries.all (fun p => l.forms p.form && seqKeeps l p.parts) &&
      operators.all (fun o => l.forms o.form && seqKeeps l o.parts)

/-- A step that keeps to limits. -/
inductive Step.Keeps (l : Limits) : Step → Prop where
  | read {place next : Nat} {kinds : KindSet} {only : Option Kind} {label : Option Label} :
      l.reads kinds = true → Keeps l (.read place next kinds only label)
  | call {place next : Nat} {rule : RuleName} {level : Nat} {label : Option Label} :
      l.calls rule = true → Keeps l (.call place next rule level label)
  | choose {place decision : Nat} {alts : List (List Step)} :
      (∀ alt ∈ alts, ∀ s ∈ alt, Keeps l s) → Keeps l (.choose place decision alts)
  | optionally {place decision : Nat} {alts : List (List Step)} :
      (∀ alt ∈ alts, ∀ s ∈ alt, Keeps l s) → Keeps l (.optionally place decision alts)
  | many {again : Bool} {place back decision : Nat} {body : List Step} :
      (∀ s ∈ body, Keeps l s) → Keeps l (.many again place back decision body)
  | some {place back decision : Nat} {body : List Step} :
      (∀ s ∈ body, Keeps l s) → Keeps l (.some place back decision body)
  | become {form : Form} : l.forms form = true → Keeps l (.become form)
  | climb {again : Bool} {place back decision inner innerDecision : Nat}
      {ops : List (Form × Nat × Nat × List Step)} :
      (∀ op ∈ ops, l.forms op.1 = true) → (∀ op ∈ ops, ∀ s ∈ op.2.2.2, Keeps l s) →
      Keeps l (.climb again place back decision inner innerDecision ops)

section Limits

variable {l : Limits}

theorem TurnCoded.keeps {alts : List (List Element)} {body : List Step}
    (h : TurnCoded count alts body)
    (halts : ∀ codes, AltsCoded count alts codes → ∀ code ∈ codes, ∀ s ∈ code, s.Keeps l) :
    ∀ s ∈ body, s.Keeps l := by
  cases h with
  | only hcode => exact halts _ (.cons hcode .nil) _ List.mem_cons_self
  | among hcodes _ => exact List.forall_mem_singleton.mpr (.choose (halts _ hcodes))

mutual

theorem Element.Coded.keeps : ∀ (e : Element) {label : Option Label} {s : Step},
    e.Coded count label s →
    e.keeps l = true → s.Keeps l
  | .token _, _, _, .token, h | .oneOf _, _, _, .oneOf, h => .read h
  | .call _ _, _, _, .call, h => .call h
  | .labelled _ e, _, _, .labelled hs, h => hs.keeps e h
  | .choice alts, _, _, .choice hcodes _, h => .choose (hcodes.keeps alts h)
  | .optional alts, _, _, .optional hcodes, h => .optionally (hcodes.keeps alts h)
  | .many alts, _, _, .many hbody, h => .many (hbody.keeps fun _ hcodes => hcodes.keeps alts h)
  | .some alts, _, _, .some hbody, h => .some (hbody.keeps fun _ hcodes => hcodes.keeps alts h)

theorem SeqCoded.keeps : ∀ (es : List Element) {code : List Step}, SeqCoded count es code →
    seqKeeps l es = true →
    ∀ s ∈ code, s.Keeps l
  | [], _, .nil, _ => nofun
  | e :: es, _, .cons hs hcode, h => by
    rw [seqKeeps, Bool.and_eq_true] at h
    exact List.forall_mem_cons.mpr ⟨hs.keeps e h.1, hcode.keeps es h.2⟩

theorem AltsCoded.keeps : ∀ (alts : List (List Element)) {codes : List (List Step)},
    AltsCoded count alts codes →
    altsKeep l alts = true → ∀ code ∈ codes, ∀ s ∈ code, s.Keeps l
  | [], _, .nil, _ => nofun
  | a :: as, _, .cons hcode hcodes, h => by
    rw [altsKeep, Bool.and_eq_true] at h
    exact List.forall_mem_cons.mpr ⟨hcode.keeps a h.1, hcodes.keeps as h.2⟩

end

/-- The steps of a right-hand side keep to the limits that it keeps to. -/
theorem Production.Coded.keeps {p : Production} {steps : List Step} (hsteps : p.Coded count steps)
    (h : p.keeps l = true) :
    ∀ s ∈ steps, s.Keeps l := by
  cases hsteps with
  | only hparts =>
    rw [Production.keeps, altsKeep, Bool.and_eq_true] at h
    exact hparts.keeps _ h.1
  | among hcodes _ => exact List.forall_mem_singleton.mpr (.choose (hcodes.keeps _ h))
  | climbing hprimaries _ hoperators _ =>
    simp only [Production.keeps, Bool.and_eq_true, List.all_eq_true] at h
    refine List.forall_mem_cons.mpr ⟨.choose fun code hcode => ?_, List.forall_mem_singleton.mpr
      (.climb (fun op hop => ?_)
      fun op hop => ?_)⟩
    · obtain ⟨p, hp, front, rfl, hfront⟩ := exists_of_forall₂ hprimaries hcode
      exact List.forall_mem_cons.mpr ⟨.become (h.1 p hp).1, hfront.keeps _ (h.1 p hp).2⟩
    · obtain ⟨o, ho, hform, -, -⟩ := exists_of_forall₂ hoperators hop
      rw [hform]
      exact (h.2 o ho).1
    · obtain ⟨o, ho, -, -, hparts⟩ := exists_of_forall₂ hoperators hop
      exact hparts.keeps _ (h.2 o ho).2

end Limits

end Coupling.Java
