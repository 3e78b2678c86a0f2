import Coupling.Java.Parsing.Parse

/-!
# Which alternatives are predicted

Every configuration of a prediction began with one of the alternatives of its decision, and reading
and closing keep the alternative. So a prediction answers with an alternative that there is
(`predict_le`).
-/

namespace Coupling.Java

namespace Configs

variable {A : Nat → Prop} {s : Configs}

/-- All configurations began with alternatives of a set. -/
def Within (A : Nat → Prop) (s : Configs) : Prop := ∀ c ∈ s.items.toList, A c.alt

theorem within_empty : empty.Within A := fun c hc => by cases hc

theorem Within.add (h : s.Within A) {c : Config} (hc : A c.alt) (any : Bool) (pool : Pool) :
    (s.add any pool c).1.Within A := by
  unfold Configs.add
  split
  · intro d hd
    rw [Array.toList_push, List.mem_append, List.mem_singleton] at hd
    rcases hd with hd | rfl
    · exact h d hd
    · exact hc
  · split
    · exact h
    · next old hold =>
      intro d hd
      rw [Array.toList_setIfInBounds] at hd
      rcases List.mem_or_eq_of_mem_set hd with hd | rfl
      · exact h d hd
      · exact h old (Array.mem_toList_iff.mpr (Array.mem_of_getElem? hold))

theorem Within.addAll (h : s.Within A) {cs : List Config} (hcs : ∀ c ∈ cs, A c.alt) (any : Bool)
    (pool : Pool) :
    (addAll any cs s pool).1.Within A :=
  List.foldlRecOn cs _ (motive := fun acc : Configs × Pool => acc.1.Within A) h fun _ hb c hc =>
  hb.add (hcs c hc) _ _

theorem Within.uniqueAlt (h : s.Within A) {a : Nat} (ha : s.uniqueAlt? = some a) : A a := by
  unfold uniqueAlt? at ha
  split at ha
  · cases ha
  · next c hc =>
    split at ha
    · cases ha
      exact h c (Array.mem_toList_iff.mpr (Array.mem_of_getElem? hc))
    · cases ha

theorem within_leastAlt {cs : List Config} (h : ∀ c ∈ cs, A c.alt) {a : Nat}
    (ha : leastAlt? cs = some a) : A a := by
  obtain ⟨c, hc, rfl⟩ := List.mem_map.mp (List.min?_mem ha)
  exact h c hc

theorem Within.soleViable (h : s.Within A) {a : Nat} (ha : s.soleViable? = some a) : A a := by
  unfold soleViable? at ha
  split at ha
  · cases ha
  · next a' ha' =>
    split at ha
    · cases ha
      exact within_leastAlt h ha'
    · cases ha

end Configs

open Configs

section Closing

variable {A : Nat → Prop} {k : Closing}

theorem Work.within_add {w : Work} (hw : w.found.Within A) {c : Config} (hc : A c.alt) :
    (w.add k c).found.Within A :=
  hw.add hc _ _

theorem Work.within_visit {recur : Config → Work → Work} {w : Work} (hw : w.found.Within A)
    {c : Config} (hc : A c.alt)
    (hrecur : ∀ c w, A c.alt → w.found.Within A → (recur c w).found.Within A) :
    (w.visit recur c).found.Within A := by
  unfold Work.visit
  simp only
  split
  · exact hw
  · exact hrecur c _ hc hw

theorem expand_within {recur : Bool → Int → Config → Work → Work}
    (hrecur : ∀ collect depth c w, A c.alt → w.found.Within A →
      (recur collect depth c w).found.Within A)
    (collect : Bool) (depth : Int) (c : Config) (w : Work) (hc : A c.alt) (hw : w.found.Within A) :
    (expand k recur collect depth c w).found.Within A := by
  unfold expand
  extract_lets w'
  have hw' : w'.found.Within A := by
    simp only [w']
    split
    · exact Work.within_add hw hc
    · exact hw
  split
  · exact List.foldlRecOn _ _ (motive := fun w : Work => w.found.Within A) hw' fun w hw f _ =>
      Work.within_visit hw hc fun c w => hrecur collect (depth - 1) c w
  · refine List.foldlRecOn _ _ (motive := fun w : Work => w.found.Within A) hw' fun w hw e _ => ?_
    cases e with
    | free t => exact hrecur _ _ _ _ hc hw
    | read ks t =>
      simp only [followEdge]
      split
      · exact Work.within_visit hw hc fun c w => hrecur collect depth c w
      · exact hw
    | call r l follow => exact hrecur _ _ _ _ hc hw
    | atLevel l t =>
      simp only [followEdge]
      split
      · split
        · split
          · exact hrecur _ _ _ _ hc hw
          · exact hw
        · exact hrecur _ _ _ _ hc hw
      · exact hrecur _ _ _ _ hc hw

theorem closeUpTo_within (n : Nat) (collect : Bool) (depth : Int) (c : Config) (w : Work)
    (hc : A c.alt) (hw : w.found.Within A) : (closeUpTo k n collect depth c w).found.Within A := by
  induction n generalizing collect depth c w with
  | zero => exact hw
  | succ n ih =>
    have hexpand (w : Work) (hw : w.found.Within A) :
        (expand k (closeUpTo k n) collect depth c w).found.Within A :=
      expand_within (fun collect depth c w hc hw => ih collect depth c w hc hw) collect
        depth c w hc hw
    rw [closeUpTo]
    extract_lets node w'
    have hw' : w'.found.Within A :=
      List.foldlRecOn _ _ (motive := fun w : Work => w.found.Within A) hw fun w hw f _ =>
      ih _ _ _ w hc hw
    split
    · split
      · split
        · exact Work.within_add hw' hc
        · exact hexpand w' hw'
      · exact hw'
    · exact hexpand w hw

end Closing

namespace Prediction

variable {A : Nat → Prop} {k : Closing} {s : Configs}

theorem start_within {targets : List Nat} (h : ∀ a, 1 ≤ a → a ≤ targets.length → A a)
    (callers : Nat) (pool : Pool) :
    (start k targets callers pool).1.Within A := by
  unfold start
  refine List.foldlRecOn _ _ (motive := fun w : Work => w.found.Within A) within_empty
    fun w hw t ht => ?_
  obtain ⟨hle, hlt, -⟩ := List.mem_zipIdx ht
  exact closeUpTo_within _ _ _ _ _ (h t.2 hle (by omega)) hw

variable {level a : Nat} {net : Network} {q : Situation}

theorem filterByLevel_within (h : s.Within A) (pool : Pool) :
    (filterByLevel level s pool).1.Within A := by
  unfold filterByLevel
  refine within_empty.addAll (fun c hc => ?_) true pool
  rcases List.mem_append.mp hc with hc | hc
  · obtain ⟨c', hc', heq⟩ := List.mem_filterMap.mp hc
    have hsame : c.alt = c'.alt := by
      split at heq
      · split at heq
        · split at heq
          · cases heq
            rfl
          · cases heq
        · cases heq
          rfl
      · cases heq
    rw [hsame]
    exact h c' hc'
  · exact h c (List.mem_filter.mp hc).1

theorem moves_alt {kind : Kind} {c c' : Config} (h : c' ∈ moves net kind c) : c'.alt = c.alt := by
  unfold moves at h
  split at h
  · cases h
  · obtain ⟨e, -, heq⟩ := List.mem_filterMap.mp h
    split at heq
    · split at heq
      · cases heq
        rfl
      · cases heq
    · cases heq

theorem stops_within (h : s.Within A) : ∀ c ∈ stops net s, A c.alt :=
  fun c hc => h c (List.mem_filter.mp hc).1

theorem closeAll_within (h : s.Within A) (pool : Pool) : (closeAll k s pool).1.Within A := by
  unfold closeAll
  rw [← Array.foldl_toList]
  exact List.foldlRecOn _ _ (motive := fun w : Work => w.found.Within A) within_empty
      fun w hw c hc =>
    closeUpTo_within _ _ _ _ _ (h c hc) hw

theorem advance_within (h : s.Within A) (kind : Kind) (pool : Pool) :
    (advance k s kind pool).1.Within A := by
  unfold advance
  extract_lets atEnd k' stopped
  have hstopped : ∀ c ∈ stopped, A c.alt := by
    intro c hc
    simp only [stopped] at hc
    split at hc
    · exact stops_within h c hc
    · cases hc
  split
  next moved pool₁ hmoved =>
  extract_lets settled
  have hmoved' : moved.Within A := by
    have hmoves : ∀ c ∈ s.items.toList.flatMap (moves k'.net kind), A c.alt := by
      intro c hc
      obtain ⟨c', hc', hmove⟩ := List.mem_flatMap.mp hc
      rw [moves_alt hmove]
      exact h c' hc'
    have hall := within_empty.addAll hmoves (!k'.full) pool
    rw [hmoved] at hall
    exact hall
  split
  next reached pool₂ hreached =>
  have hreached' : reached.Within A := by
    split at hreached
    · cases hreached
      exact hmoved'
    · have hclose := closeAll_within (k := k') hmoved' pool₁
      rw [hreached] at hclose
      exact hclose
  split
  next kept pool₃ hkept =>
  have hkept' : kept.Within A := by
    split at hkept
    · have hstops : ∀ c ∈ stops k'.net reached, A c.alt := stops_within hreached'
      have hall := within_empty.addAll hstops (!k'.full) pool₂
      rw [hkept] at hall
      exact hall
    · cases hkept
      exact hreached'
  split
  · exact hkept'
  · exact hkept'.addAll hstopped _ _

theorem finished_within {pool : Pool} (h : s.Within A) (ha : finished? net pool level s = some a) :
    A a := by
  unfold finished? at ha
  simp only at ha
  split at ha
  · next a' ha' =>
    cases ha
    exact within_leastAlt (fun c hc => h c (List.mem_filter.mp (List.mem_filter.mp hc).1).1) ha'
  · exact within_leastAlt (fun c hc => h c (List.mem_filter.mp (List.mem_filter.mp hc).1).1) ha

theorem byLevel_mem {alts as : List Nat} (h : byLevel level s alts = some as) (ha : a ∈ as) :
    a ∈ alts := by
  unfold byLevel at h
  simp only at h
  split at h
  · split at h
    · cases h
    · cases h
      exact (List.mem_filter.mp ha).1
  · cases h

theorem alts_within (h : s.Within A) : ∀ a ∈ (s.items.toList.map Config.alt).eraseDups, A a := by
  intro a ha
  obtain ⟨c, hc, rfl⟩ := List.mem_map.mp (List.mem_eraseDups.mp ha)
  exact h c hc

/-- A verdict that, if it chooses, chooses from a set. -/
def Chooses (A : Nat → Prop) (v : Verdict) : Prop := ∀ a reached, v = .choose a reached → A a

theorem exact_chooses (n : Nat) {source : Source} (h : s.Within A) (i : Nat) (pool : Pool) :
    Chooses A (exact k source n s i pool).1 := by
  induction n generalizing s i pool with
  | zero =>
    intro a reached ha
    cases ha
  | succ n ih =>
    have hadvance := advance_within (k := k) h (source.kind i) pool
    rw [exact]
    simp only
    rcases hnext : advance k s (source.kind i) pool with ⟨next, pool'⟩
    rw [hnext] at hadvance
    simp only
    split
    · split
      · next a ha =>
        intro a' reached ha'
        cases ha'
        exact finished_within h ha
      · intro a reached ha
        cases ha
    · split
      · next a ha =>
        intro a' reached ha'
        cases ha'
        exact hadvance.uniqueAlt ha
      · split
        · next a ha =>
          intro a' reached ha'
          cases ha'
          exact hadvance.soleViable ha
        · exact ih hadvance _ pool'

theorem restart_chooses (h : ∀ a, 1 ≤ a → a ≤ q.decision.targets.length → A a) (pool : Pool) :
    Chooses A (restart q pool).1 :=
  exact_chooses _ (start_within h _ _) _ _

theorem withoutCallers_chooses (hstart : ∀ a, 1 ≤ a → a ≤ q.decision.targets.length → A a) (n : Nat)
    (h : s.Within A) (i : Nat) (pool : Pool) : Chooses A (withoutCallers k q n s i pool).1 := by
  induction n generalizing s i pool with
  | zero =>
    intro a reached ha
    cases ha
  | succ n ih =>
    have hadvance := advance_within (k := k) h (q.source.kind i) pool
    rw [withoutCallers]
    simp only
    rcases hnext : advance k s (q.source.kind i) pool with ⟨next, pool'⟩
    rw [hnext] at hadvance
    simp only
    split
    · split
      · next a ha =>
        intro a' reached ha'
        cases ha'
        exact finished_within h ha
      · intro a reached ha
        cases ha
    · split
      · next a ha =>
        have hunique := hadvance.uniqueAlt ha
        split <;> intro a' reached ha' <;> cases ha'
        · exact hunique
        · exact hunique
      · split
        · split
          · next a hlevel =>
            intro a' reached ha'
            cases ha'
            exact alts_within hadvance a (byLevel_mem hlevel (List.mem_singleton_self _))
          · have hrestart := restart_chooses (q := q) hstart pool'
            split
            · next a j pool'' hverdict =>
              rw [hverdict] at hrestart
              intro a' reached ha'
              cases ha'
              exact hrestart a j rfl
            · intro a reached ha
              cases ha
        · exact ih hadvance _ pool'

end Prediction

open Prediction

/-- Whether a number is one of the alternatives of a decision, counted from 1. -/
def Network.HasAlt (net : Network) (decision a : Nat) : Prop :=
  1 ≤ a ∧ a ≤ (net.decision decision).targets.length

/-- What is remembered of each decision began with its alternatives. -/
def Memory.Knows (net : Network) (m : Memory) : Prop :=
  ∀ (d : Nat) (s : Configs), m.starts[d]? = some s → s.Within (net.HasAlt d)

theorem Memory.knows_ofNetwork (net : Network) : (Memory.ofNetwork net).Knows net := by
  let Known (i : Nat) (m : Memory) : Prop := m.starts.size = i ∧ m.Knows net
  have hall : Known net.decisions.size (Memory.ofNetwork net) := by
    refine Array.foldl_induction Known ⟨rfl, fun d s h => by simp at h⟩ fun i m hm => ?_
    refine ⟨by simp [hm.1], fun d s hs => ?_⟩
    by_cases hlast : d < i
    · rw [Array.getElem?_push_lt (hm.1 ▸ hlast)] at hs
      exact hm.2 d s (by rw [Array.getElem?_eq_getElem (hm.1 ▸ hlast)]; exact hs)
    · have hd : d = m.starts.size := by
        have hlt := (Array.getElem?_eq_some_iff.mp hs).1
        rw [Array.size_push, hm.1] at hlt
        rw [hm.1]
        omega
      rw [hd, Array.getElem?_push_size] at hs
      cases hs
      refine start_within (fun a hone hle => ⟨hone, ?_⟩) 0 m.pool
      rw [Network.decision, hd, hm.1, Array.getElem?_eq_getElem i.isLt]
      exact hle
  exact hall.2

section

variable {net : Network} {memory : Memory} (h : memory.Knows net) (source : Source)
  (first decision : Nat)
  (stack : List Nat) (level : Nat)
include h

theorem predict_chooses : Chooses (net.HasAlt decision)
    (predict net source first decision stack level memory).1 := by
  have hstart : ((memory.starts[decision]?).getD .empty).Within (net.HasAlt decision) := by
    cases hs : memory.starts[decision]? with
    | none => exact within_empty
    | some s => exact h decision s hs
  unfold predict
  extract_lets d q k s
  have hfiltered : (if k.climbing.isSome = true then filterByLevel level s memory.pool
      else (s, memory.pool)).1.Within
      (net.HasAlt decision) := by
    split
    · exact filterByLevel_within hstart _
    · exact hstart
  exact withoutCallers_chooses (q := q) (fun a hone hle => ⟨hone, hle⟩) _ hfiltered _ _

theorem predict_knows : (predict net source first decision stack level memory).2.Knows net := h

end

/-! ## Decisions of a parse -/

/-- The sets of tokens that decide a choice belong to its targets. -/
def Network.Ordered (net : Network) : Prop :=
  ∀ d sets, (net.decision d).byToken = some sets → sets.length = (net.decision d).targets.length

theorem tokenSets_length {wides : Array Wide} {targets : List Nat} {sets : List KindSet}
    (h : tokenSets wides targets = some sets) : sets.length = targets.length := by
  unfold tokenSets at h
  simp only at h
  split at h
  · cases h
  · split at h
    · cases h
      simp
    · cases h

theorem Network.ofGrammar_ordered (grammar : RuleName → Production) :
    (Network.ofGrammar grammar).Ordered := by
  intro d sets hsets
  unfold Network.decision at hsets ⊢
  cases hd : (Network.ofGrammar grammar).decisions[d]? with
  | none =>
    rw [hd] at hsets
    cases hsets
  | some x =>
    rw [hd, Option.getD_some] at hsets
    rw [Option.getD_some]
    have hmap := Array.mem_of_getElem? hd
    obtain ⟨y, -, rfl⟩ := Array.mem_map.mp hmap
    exact tokenSets_length hsets

/-- **A decision takes an alternative that there is.** -/
theorem Scope.decide_lt {c : Scope} {r : Run} {decision i : Nat} (hnet : c.net.Ordered)
    (hr : r.state.memory.Knows c.net)
    (h : (c.decide decision r).1 = .ok i) : i < (c.net.decision decision).targets.length := by
  unfold Scope.decide at h
  split at h
  · next sets hsets =>
    split at h
    · next j hj =>
      cases h
      rw [← hnet decision sets hsets]
      exact (List.findIdx?_eq_some_iff_findIdx_eq.mp hj).1
    · cases h
  · have hchooses := predict_chooses hr c.source r.state.pos decision c.stack c.level
    simp only at h
    split at h
    · next alt reached hverdict =>
      cases h
      have halt := hchooses alt reached hverdict
      unfold Network.HasAlt at halt
      omega
    · cases h

end Coupling.Java
