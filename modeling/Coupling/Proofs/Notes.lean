import Coupling.Proofs.Scripts

/-!
# Requests and what a tree states

Where declarations are found under their own names and no part is missing, nothing ends a reading of
itself, and the declarations that it looks up are those it comes to (`legible_script`). What is
noted then is noted on one of these (`owner_of_note`).
-/

namespace Coupling.Project

open Java (ParseTree NodeInfo)

/-- Whether the parts of a node are there that a reading asks for. -/
def isComplete (t : ParseTree) : Bool :=
  match roleOf t with
  | .package | .import => (t.first? .qualifiedName).isSome
  | .type kind => (supertypes kind t).toBool
  | .method => (methodTypes t).toBool
  | .field => (t.first? .typeType).isSome
  | .other => true

/-- No part is missing at some places. -/
def Complete (places : List Spot) : Prop := ∀ p ∈ places, isComplete p.node = true

instance (places : List Spot) : Decidable (Complete places) :=
  inferInstanceAs (Decidable (∀ p ∈ places, _))

/-- A request does not end the reading; what it looks up is one of some declarations. -/
def Request.Legible (handleOf : SymbolId → Handle) (ds : List Declaration) : Request → Prop
  | .fail _ => False
  | .enter k => ∃ d ∈ ds, handleOf d.id = k
  | _ => True

section Tree

variable {full : Table String} {nameOf : SymbolId → String} {handleOf : SymbolId → Handle}
  {ds : List Declaration}

theorem forall_mem_attempt_ok {α : Type} {P : Request → Prop} {part : Except Fault α} {a : α}
    (h : part = .ok a)
    {rest : α → List Request} (hrest : ∀ r ∈ rest a, P r) : ∀ r ∈ attempt part rest, P r := by
  rwa [attempt_ok h]

mutual

/-- Nothing ends a reading of itself, and it looks up declarations that it comes to. -/
theorem legible_script (hds : ∀ d ∈ ds, d.Stands full nameOf id handleOf) :
    ∀ (t : ParseTree) {above : List ParseTree}
    {w : Place} {scope : Option SymbolId} {next : Nat}, Complete (spots above t) →
    seen scope next t ⊆ ds →
    ∀ r ∈ script full w t, r.Legible handleOf ds
  | .token _, _, _, _, _, _, _ | .skipped _, _, _, _, _, _, _ | .missing _, _, _, _, _, _, _ =>
    fun _ hr => by cases hr
  | .node info cs, above, w, scope, next, hcomplete, hseen => by
    have hhere : isComplete (.node info cs) = true := hcomplete _ List.mem_cons_self
    have hbelow : Complete (spotsOf (.node info cs :: above) cs) :=
      fun p hp => hcomplete p (List.mem_cons_of_mem _ hp)
    have hstated (types : List String) (owner : Option Handle) (source : String) :
        ∀ r ∈ types.flatMap (referring full owner source), r.Legible handleOf ds :=
      List.forall_mem_flatMap.mpr fun type _ =>
        forall_mem_referring (fun _ _ => trivial) fun _ _ => trivial
    rw [seen] at hseen
    rw [script]
    cases hrole : Role.ofForm info.form with
    | package =>
      obtain ⟨t, ht⟩ := Option.isSome_iff_exists.mp
        (by simpa only [isComplete, roleOf, hrole] using hhere)
      exact forall_mem_attempt_ok (a := t.text) (congrArg textOf ht) fun r hr => by cases hr
    | «import» =>
      obtain ⟨t, ht⟩ := Option.isSome_iff_exists.mp
        (by simpa only [isComplete, roleOf, hrole] using hhere)
      exact forall_mem_attempt_ok (a := t.text) (congrArg textOf ht)
        (List.forall_mem_singleton.mpr trivial)
    | type kind =>
      simp only [hrole] at hseen
      obtain ⟨hown, hrest⟩ := List.cons_subset.mp hseen
      obtain ⟨n, name, hn, hname, hheld⟩ := (hds _ hown).type (Collect.kind_ne_method hrole)
      obtain ⟨types, htypes⟩ :=
        Steps.exists_of_toBool (by simpa only [isComplete, roleOf, hrole] using hhere)
      refine forall_mem_attempt_ok (a := n.text) (congrArg textOf hn)
        (forall_mem_attempt_ok (Analyze.lookUp_eq_ok.mpr hname) ?_)
      refine List.forall_mem_cons.mpr ⟨⟨_, hown, hheld.symm⟩, forall_mem_attempt_ok htypes ?_⟩
      refine List.forall_mem_append.mpr ⟨List.forall_mem_flatMap.mpr fun type _ => ?_,
        legible_scriptAll hds cs hbelow hrest⟩
      exact forall_mem_inheriting trivial (fun _ _ => trivial) fun _ _ => trivial
    | method =>
      simp only [hrole] at hseen
      obtain ⟨hown, hrest⟩ := List.cons_subset.mp hseen
      obtain ⟨key, hkey, hname, hheld⟩ := (hds _ hown).method rfl
      obtain ⟨types, htypes⟩ :=
        Steps.exists_of_toBool (by simpa only [isComplete, roleOf, hrole] using hhere)
      refine forall_mem_attempt_ok hkey (forall_mem_attempt_ok (Analyze.lookUp_eq_ok.mpr hname) ?_)
      refine List.forall_mem_cons.mpr ⟨⟨_, hown, hheld.symm⟩,
        List.forall_mem_cons.mpr ⟨trivial, ?_⟩⟩
      refine forall_mem_attempt_ok htypes ?_
      exact List.forall_mem_append.mpr ⟨hstated types _ _, legible_scriptAll hds cs hbelow hrest⟩
    | field =>
      obtain ⟨t, ht⟩ := Option.isSome_iff_exists.mp
        (by simpa only [isComplete, roleOf, hrole] using hhere)
      refine forall_mem_attempt_ok (a := t.text) (congrArg textOf ht) ?_
      exact forall_mem_referring (fun _ _ => trivial) fun _ _ => trivial
    | other =>
      simp only [hrole] at hseen
      exact legible_scriptAll hds cs hbelow hseen

theorem legible_scriptAll (hds : ∀ d ∈ ds, d.Stands full nameOf id handleOf) :
    ∀ (ts : List ParseTree)
    {above : List ParseTree} {w : Place} {scope : Option SymbolId} {next : Nat},
    Complete (spotsOf above ts) →
    seenOf scope next ts ⊆ ds → ∀ r ∈ scriptAll full w ts, r.Legible handleOf ds
  | [], _, _, _, _, _, _ => fun _ hr => by cases hr
  | t :: ts, above, w, scope, next, hcomplete, hseen => by
    rw [seenOf, List.append_subset] at hseen
    rw [scriptAll]
    exact List.forall_mem_append.mpr
      ⟨legible_script hds t (fun p hp => hcomplete p (List.mem_append_left _ hp)) hseen.1,
        legible_scriptAll hds ts (fun p hp => hcomplete p (List.mem_append_right _ hp)) hseen.2⟩

end

mutual

/-- What is noted is noted on the symbol around or on one of the declarations that a reading comes
to. -/
theorem owner_of_note : ∀ (t : ParseTree) {scope : Option SymbolId} {next : Nat},
    ∀ n ∈ notes full nameOf scope next t,
    n.1 = scope ∨ ∃ d ∈ seen scope next t, n.1 = some d.id
  | .token _, _, _, _, hn | .skipped _, _, _, _, hn | .missing _, _, _, _, hn => by cases hn
  | .node info cs, scope, next, n, hn => by
    rw [notes] at hn
    rw [seen]
    cases hrole : Role.ofForm info.form with
    | package | «import» =>
      simp only [hrole] at hn
      cases hn
    | type kind =>
      simp only [hrole] at hn ⊢
      rcases List.mem_append.mp hn with hn | hn
      · obtain ⟨name, -, rfl⟩ := List.mem_map.mp hn
        exact .inr ⟨_, List.mem_cons_self, rfl⟩
      · exact .inr (owner_of_noteBelow cs n hn)
    | method =>
      simp only [hrole] at hn ⊢
      rcases List.mem_cons.mp hn with rfl | hn
      · exact .inl rfl
      · rcases List.mem_append.mp hn with hn | hn
        · obtain ⟨name, -, rfl⟩ := List.mem_map.mp hn
          exact .inr ⟨_, List.mem_cons_self, rfl⟩
        · exact .inr (owner_of_noteBelow cs n hn)
    | field =>
      simp only [hrole] at hn
      obtain ⟨name, -, rfl⟩ := List.mem_map.mp hn
      exact .inl rfl
    | other =>
      simp only [hrole] at hn ⊢
      exact owner_of_noteAll cs n hn

theorem owner_of_noteAll : ∀ (ts : List ParseTree) {scope : Option SymbolId} {next : Nat},
    ∀ n ∈ notesOf full nameOf scope next ts, n.1 = scope ∨ ∃ d ∈ seenOf scope next ts,
    n.1 = some d.id
  | [], _, _, _, hn => by cases hn
  | t :: ts, scope, next, n, hn => by
    rw [notesOf] at hn
    rw [seenOf]
    rcases List.mem_append.mp hn with hn | hn
    · exact (owner_of_note t n hn).imp id fun ⟨d, hd, heq⟩ => ⟨d, List.mem_append_left _ hd, heq⟩
    · exact (owner_of_noteAll ts n hn).imp id fun ⟨d, hd, heq⟩ =>
        ⟨d, List.mem_append_right _ hd, heq⟩

/-- What is noted below a declaration is noted on it or on a declaration below it. -/
theorem owner_of_noteBelow {d : Declaration} (ts : List ParseTree) {next : Nat} :
    ∀ n ∈ notesOf full nameOf (some d.id) next ts, ∃ e ∈ d :: seenOf (some d.id) next ts,
    n.1 = some e.id := by
  intro n hn
  rcases owner_of_noteAll ts n hn with hown | ⟨e, he, heq⟩
  · exact ⟨d, List.mem_cons_self, hown⟩
  · exact ⟨e, List.mem_cons_of_mem _ he, heq⟩

end

end Tree

end Coupling.Project
