import Coupling.Proofs.FileOrder

/-!
# One file more

A file that is put into a project and shares no name with the files there takes nothing away. All
that was granted is granted still, and in the same order (`performed_sublist`); so counts do not
fall, and what a symbol depends on and inherits from comes again, in the same order (`file_added`).

It need not come first: if two files declare one name, what the new file allows the first of them to
note comes before what the second had noted (`added_file_comes_between`). If the files share no
names, each symbol has its notes from one file, and they are a beginning of what they become.
-/

namespace Coupling.Project

open Java (ParseTree)

/-! ## Requests that are granted still -/

theorem performed_sublist {v v' : Names} (h : v ≤ v') {rss rss' : List (List Request)}
    (hrss : rss.Sublist rss') :
    (performed v rss).Sublist (performed v' rss') := by
  induction hrss generalizing v v' with
  | slnil => exact .slnil
  | cons rs _ ih =>
    exact (ih (Names.le_trans h (v'.le_after _))).trans (List.sublist_append_right _ _)
  | cons_cons rs _ ih =>
    have hrs := granted_prefix h rs
    exact hrs.sublist.append (ih (Names.after_mono h hrs))

variable {xs xs' : List Collection}

theorem namesOf_mono (h : xs ⊆ xs') : namesOf xs ≤ namesOf xs' := by
  refine ⟨fun name hname => ?_, fun name hname => ?_⟩
  · obtain ⟨x, hx, hfound⟩ := List.any_eq_true.mp hname
    exact List.any_eq_true.mpr ⟨x, h hx, hfound⟩
  · obtain ⟨x, hx, hfound⟩ := List.any_eq_true.mp hname
    exact List.any_eq_true.mpr ⟨x, h hx, hfound⟩

theorem fulfilled_sublist (h : xs.Sublist xs') : (fulfilled xs).Sublist (fulfilled xs') :=
  performed_sublist (namesOf_mono h.subset) (h.map _)

theorem interactions_mono (h : xs.Sublist xs') (p q : String) :
    interactions xs p q ≤ interactions xs' p q := by
  unfold interactions
  split
  · exact Nat.le_refl 0
  · exact (fulfilled_sublist h).count_le _

/-! ## Requests about one symbol -/

theorem filterMap_performed_eq_nil {f : Request → Option String} (h : ∀ x ∈ xs, x.Silent f)
    (v : Names) :
    (performed v (xs.map Collection.script)).filterMap f = [] := by
  induction xs generalizing v with
  | nil => rfl
  | cons x xs ih =>
    obtain ⟨hx, hrest⟩ := List.forall_mem_cons.mp h
    rw [List.map_cons, performed, List.filterMap_append, hx.filterMap_granted, ih hrest]
    rfl

/-- If at most one file adds something, more files and more names only add to the end. -/
theorem filterMap_performed_prefix {f : Request → Option String} {v v' : Names} (h : v ≤ v')
    (hxs : xs.Sublist xs') (hone : xs'.Pairwise fun x y => x.Silent f ∨ y.Silent f) :
    (performed v (xs.map Collection.script)).filterMap f <+:
    (performed v' (xs'.map Collection.script)).filterMap f := by
  induction hxs generalizing v v' with
  | slnil => exact List.prefix_refl _
  | @cons xs xs' z hsub ih =>
    obtain ⟨hz, hrest⟩ := List.pairwise_cons.mp hone
    by_cases hsilent : z.Silent f
    · rw [List.map_cons, performed, List.filterMap_append, hsilent.filterMap_granted,
        List.nil_append]
      exact ih (Names.le_trans h (v'.le_after _)) hrest
    · rw [filterMap_performed_eq_nil fun x hx => (hz x (hsub.subset hx)).resolve_left hsilent]
      exact List.nil_prefix
  | @cons_cons xs xs' x hsub ih =>
    obtain ⟨hx, hrest⟩ := List.pairwise_cons.mp hone
    have hprefix := granted_prefix h x.script
    simp only [List.map_cons, performed, List.filterMap_append]
    by_cases hsilent : x.Silent f
    · rw [hsilent.filterMap_granted, hsilent.filterMap_granted, List.nil_append, List.nil_append]
      exact ih (Names.after_mono h hprefix) hrest
    · have hothers (y : Collection) (hy : y ∈ xs') : y.Silent f := (hx y hy).resolve_left hsilent
      rw [filterMap_performed_eq_nil fun y hy => hothers y (hsub.subset hy),
        filterMap_performed_eq_nil hothers, List.append_nil, List.append_nil]
      exact hprefix.filterMap f

/-! ## What symbols have become -/

section Insert

variable {k : Nat} {xs xs' : List Collection} {φ : Nat → Nat}

/-- What is found under a name is found under the same names as before, if new files have other
names. -/
theorem Moves.number_iff_of_found (h : Moves k xs xs' φ) (hxs : ∀ x ∈ xs, x.Whole)
    (hxs' : ∀ x ∈ xs', x.Whole)
    (hnew : ∀ y ∈ xs', y ∈ xs ∨ ∀ x ∈ xs, x.Apart y) {g : Handle} {id : Nat}
    (hid : numberOf g k xs = some id)
    (g' : Handle) : numberOf g' k xs' = some (φ id) ↔ numberOf g' k xs = some id := by
  refine ⟨fun hfound => ?_, h.number g' id⟩
  obtain ⟨i, hi, hname⟩ := symbolIn_numberOf hxs hid
  obtain ⟨i', hi', hname'⟩ := symbolIn_numberOf hxs' hfound
  have hsame : g'.name = g.name := by
    cases hi'.symm.trans (h.symbol id i (le_numberOf hid) hi)
    exact hname'.symm.trans hname
  have hsome : (numberOf g' k xs).isSome = true := by
    obtain ⟨y, hy, hin⟩ := numberOf_isSome.mp (Option.isSome_iff_exists.mpr ⟨_, hfound⟩)
    rcases hnew y hy with hold | hapart
    · exact numberOf_isSome.mpr ⟨y, hold, hin⟩
    · obtain ⟨x, hx, hin'⟩ := numberOf_isSome.mp (Option.isSome_iff_exists.mpr ⟨_, hid⟩)
      have hx' := (hxs x hx).contains_name hin'
      have hy' := (hxs' y hy).contains_name hin
      rw [hsame, hapart x hx _ hx'] at hy'
      cases hy'
  obtain ⟨id', hid'⟩ := Option.isSome_iff_exists.mp hsome
  rw [hid', h.injective id' id (Option.some.inj ((h.number g' id' hid').symm.trans hfound))]

end Insert

namespace Profiler

/-- What is known under each name is known still, and the supertypes and dependencies are in a
relation to what they have become. -/
structure Carries (R : List String → List String → Prop) (s s' : Scene Profiler) : Prop where
  classes : ∀ name id, (classTable s).get? name = some id →
    ∃ id', (classTable s').get? name = some id' ∧
    R (s.shared.registry.hierarchy id) (s'.shared.registry.hierarchy id') ∧
    R (s.shared.registry.dependency id) (s'.shared.registry.dependency id')
  declared : ∀ name id, declared? s name = some id → ∃ id', declared? s' name = some id' ∧
    R (s.shared.registry.hierarchy id) (s'.shared.registry.hierarchy id') ∧
    R (s.shared.registry.dependency id) (s'.shared.registry.dependency id')

section Insert

variable {r : Registry} {xs xs' : List Collection} {s s' : Scene Profiler} {φ : Nat → Nat}
  {R : List String → List String → Prop}
  (h : Profiled r xs s) (h' : Profiled r xs' s') (hφ : Moves r.size xs xs' φ)
    (hxs : ∀ x ∈ xs, x.Whole)
  (hxs' : ∀ x ∈ xs', x.Whole) (hnew : ∀ y ∈ xs', y ∈ xs ∨ ∀ x ∈ xs, x.Apart y)
  (hR : ∀ l a b, R a b → R (l ++ a) (l ++ b))
  (hadded : ∀ id i f, symbolIn r.size xs' id = some i → Adds (numberOf · r.size xs') id f →
    R ((fulfilled xs).filterMap f) ((fulfilled xs').filterMap f))
include h h' hφ hxs hxs' hnew hR hadded

/-- What became of a symbol that is found under a name, if what is added to it is in a relation. -/
theorem found_carried {g : Handle} {id : Nat} (hid : numberOf g r.size xs = some id) :
    ∃ j j', s.shared.registry.get? id = some j ∧ s'.shared.registry.get? (φ id) = some j' ∧
      j'.kind = j.kind ∧
      R j.hierarchy j'.hierarchy ∧ R j.dependency j'.dependency := by
  obtain ⟨i, hi, -⟩ := symbolIn_numberOf hxs hid
  have hle := le_numberOf hid
  have hi' := hφ.symbol id i hle hi
  have hfind (g' : Handle) : g'.find (classesOf r xs') (symbolsOf r xs') = some (φ id) ↔
      g'.find (classesOf r xs) (symbolsOf r xs) = some id := by
    rw [find_project hxs, find_project hxs']
    exact hφ.number_iff_of_found hxs hxs' hnew hid g'
  have hnumber : (fun g : Handle => g.find (classesOf r xs') (symbolsOf r xs')) =
      (numberOf · r.size xs') :=
    funext (find_project hxs' r)
  have hj := h.get? hle hi
  rw [← dependency?_congr hfind, ← super?_congr hfind] at hj
  refine ⟨_, _, hj, h'.get? (hφ.high hle) hi', rfl, hR _ _ _ ?_, hR _ _ _ ?_⟩
  · exact hadded (φ id) _ _ hi' (hnumber ▸ adds_super _ _ (φ id))
  · exact hadded (φ id) _ _ hi' (hnumber ▸ adds_dependency _ _ (φ id))

theorem carries_of_moves : Carries R s s' := by
  refine ⟨fun name (id : Nat) hid => ?_, fun name (id : Nat) hid => ?_⟩
  · rw [h.classTable] at hid
    have hid' : numberOf (.ofClass name) r.size xs = some id :=
      (find_project hxs r (.ofClass name)).symm.trans hid
    obtain ⟨j, j', hj, hj', -, hhierarchy, hdependency⟩ :=
      found_carried h h' hφ hxs hxs' hnew hR hadded hid'
    refine ⟨φ id, ?_, ?_, ?_⟩
    · rw [h'.classTable]
      exact (find_project hxs' r (.ofClass name)).trans (hφ.number _ id hid')
    · rwa [Registry.hierarchy_of_get? hj, Registry.hierarchy_of_get? hj']
    · rwa [Registry.dependency_of_get? hj, Registry.dependency_of_get? hj']
  · rw [declared?_eq h hxs] at hid
    obtain ⟨hid', hkind⟩ := Option.filter_eq_some_iff.mp hid
    obtain ⟨j, j', hj, hj', hkind', hhierarchy, hdependency⟩ :=
      found_carried h h' hφ hxs hxs' hnew hR hadded hid'
    refine ⟨φ id, ?_, ?_, ?_⟩
    · rw [hj, Option.any_some] at hkind
      rw [declared?_eq h' hxs', hφ.number _ id hid', Option.filter_some, hj', Option.any_some,
        hkind', if_pos hkind]
    · rwa [Registry.hierarchy_of_get? hj, Registry.hierarchy_of_get? hj']
    · rwa [Registry.dependency_of_get? hj, Registry.dependency_of_get? hj']

end Insert

section Insert

variable {r : Registry} {ps qs : List Collection} {z : Collection} {s s' : Scene Profiler}
  (h : Profiled r (ps ++ qs) s) (h' : Profiled r (ps ++ z :: qs) s')
  (hxs : ∀ x ∈ ps ++ z :: qs, x.Whole)
include h h' hxs

theorem carries_of_added (hnew : ∀ x ∈ ps ++ qs, x.Apart z) {R : List String → List String → Prop}
    (hR : ∀ l a b, R a b → R (l ++ a) (l ++ b))
    (hadded : ∀ id i f, symbolIn r.size (ps ++ z :: qs) id = some i →
      Adds (numberOf · r.size (ps ++ z :: qs)) id f →
      R ((fulfilled (ps ++ qs)).filterMap f) ((fulfilled (ps ++ z :: qs)).filterMap f)) :
      Carries R s s' := by
  have hmem (x : Collection) : x ∈ ps ++ z :: qs ↔ x = z ∨ x ∈ ps ++ qs :=
    List.perm_middle.mem_iff.trans List.mem_cons
  have hold : ∀ x ∈ ps ++ qs, x.Whole := fun x hx => hxs x ((hmem x).mpr (.inr hx))
  obtain ⟨φ, hφ⟩ := moves_insert r.size hold (hxs z ((hmem z).mpr (.inl rfl))) fun x hx =>
    hnew x (List.mem_append_left _ hx)
  refine carries_of_moves h h' hφ hold hxs (fun y hy => ?_) hR hadded
  rcases (hmem y).mp hy with rfl | hy
  · exact .inr hnew
  · exact .inl hy

/-- What symbols inherit from and depend on comes again in the same order. -/
theorem carries_sublist (hnew : ∀ x ∈ ps ++ qs, x.Apart z) : Carries List.Sublist s s' :=
  carries_of_added h h' hxs hnew (fun l _ _ hab => hab.append_left l) fun _ _ f _ _ =>
    (fulfilled_sublist ((List.sublist_cons_self z qs).append_left ps)).filterMap f

/-- If no two files share a name, what symbols inherit from and depend on comes first in what it
becomes. -/
theorem carries_prefix (hlocal : ∀ x ∈ ps ++ z :: qs, x.Local) (hnew : ∀ x ∈ ps ++ qs, x.Apart z)
    (hapart : (ps ++ qs).Pairwise Collection.Apart) : Carries List.IsPrefix s s' := by
  have hsub : (ps ++ qs).Sublist (ps ++ z :: qs) := (List.sublist_cons_self z qs).append_left ps
  have hall : (ps ++ z :: qs).Pairwise Collection.Apart :=
    (List.perm_middle.pairwise_iff fun h => h.symm).mpr
      (List.pairwise_cons.mpr ⟨fun x hx => (hnew x hx).symm, hapart⟩)
  refine carries_of_added h h' hxs hnew (fun l _ _ hab => (List.prefix_append_right_inj l).mpr hab)
    fun id i f hi hf => ?_
  refine filterMap_performed_prefix (namesOf_mono hsub.subset) hsub
    (hall.imp_of_mem fun hx hy hxy => ?_)
  exact hxy.silent (hlocal _ hx) (hlocal _ hy) hf hxs hi

end Insert

variable {parse : Parser} {fs : Files}

/-- **One file more takes nothing away.** Take files that can all be collected, and one among them
that shares no name of a symbol with the others. A profile with it and one without it both come to
their end. Every count with it is at least the one without it, unless the number of interactions
exceeds what a cell can hold. Every class and every method has all supertypes and all dependencies
that it has without it, in the same order. If the other files share no names either, and import
names without parentheses, they come first. -/
theorem file_added (before after : List String) (file : String) (shared : Shared)
    (hcollects : ∀ f ∈ before ++ file :: after, collects parse fs f = true)
    (hnew : ∀ x ∈ (before ++ after).filterMap (alone parse fs), ∀ z ∈ alone parse fs file,
      x.Apart z) :
    ∃ s s', (profile parse fs false).run.run (opened (before ++ after) shared) = (.ok (), s) ∧
      (profile parse fs false).run.run (opened (before ++ file :: after) shared) = (.ok (), s') ∧
      (∀ p q, (classTable s).contains p = true → (classTable s).contains q = true → ∃ c c',
        cell s.shared.numbering s.self.matrix p q = some c ∧
        cell s'.shared.numbering s'.self.matrix p q = some c' ∧
        c' = Int64.ofNat (interactions ((before ++ file :: after).filterMap (alone parse fs)) p q) ∧
        (interactions ((before ++ file :: after).filterMap (alone parse fs)) p q < Nat.pow 2 63 →
          c ≤ c')) ∧
      Carries List.Sublist s s' ∧
      ((parse = Java.parse ∨ ∀ text, Regular (parse text).tree) →
        ((before ++ after).filterMap (alone parse fs)).Pairwise Collection.Apart →
        (∀ x ∈ (before ++ file :: after).filterMap (alone parse fs), ∀ name ∈ importNames x.tree,
          '(' ∉ name.toList) →
        Carries List.IsPrefix s s') := by
  obtain ⟨z, hz⟩ := exists_alone (hcollects file (List.mem_append_right _ List.mem_cons_self))
  have hxs : (before ++ after).filterMap (alone parse fs) =
      before.filterMap (alone parse fs) ++ after.filterMap (alone parse fs) := List.filterMap_append
  have hxs' : (before ++ file :: after).filterMap (alone parse fs) =
      before.filterMap (alone parse fs) ++ z :: after.filterMap (alone parse fs) := by
    rw [List.filterMap_append, List.filterMap_cons_some hz]
  have hsub : (before ++ after).Sublist (before ++ file :: after) :=
    (List.sublist_cons_self file after).append_left before
  obtain ⟨s, hrun, hs, -⟩ := profile_profiled (fun f hf => hcollects f (hsub.subset hf)) shared
  obtain ⟨s', hrun', hs', -⟩ := profile_profiled hcollects shared
  have hwhole : ∀ x ∈ (before ++ file :: after).filterMap (alone parse fs), x.Whole :=
    fun x hx => whole_alone hx
  refine ⟨s, s', hrun, hrun', fun p q hp hq => ?_, ?_, fun hparse hapart hplain => ?_⟩
  · have hmono := namesOf_mono (hsub.filterMap (alone parse fs)).subset
    rw [hs.classTable, contains_classesOf] at hp hq
    refine ⟨_, _, (hs.cell_eq p q).trans (if_pos ⟨hp, hq⟩),
      (hs'.cell_eq p q).trans (if_pos ⟨hmono.classes p hp, hmono.classes q hq⟩), rfl,
      fun hsmall => ?_⟩
    have hle := interactions_mono (hsub.filterMap (alone parse fs)) p q
    exact (Int64.ofNat_le_iff_le (Nat.lt_of_le_of_lt hle hsmall) hsmall).mpr hle
  · rw [hxs] at hs hnew
    rw [hxs'] at hs' hwhole
    exact carries_sublist hs hs' hwhole fun x hx => hnew x hx z hz
  · have hlocal : ∀ x ∈ (before ++ file :: after).filterMap (alone parse fs), x.Local :=
      fun x hx => local_alone hx hparse (hplain x hx)
    rw [hxs] at hs hnew hapart
    rw [hxs'] at hs' hwhole hlocal
    exact carries_prefix hs hs' hwhole hlocal (fun x hx => hnew x hx z hz) hapart

/-- Two files that declare a class of one name, a file with a class that has fields of it and of
another class, and that class. -/
def fieldTrees : List (String × ParseTree) :=
  [("A", branch .compilationUnit [classNamed (named "A") [fieldOf "G"]]),
    ("B", branch .compilationUnit [classNamed (named "A") [fieldOf "A"]]),
    ("C", branch .compilationUnit [classNamed (named "C") [fieldOf "A", fieldOf "G"]]),
    ("G", branch .compilationUnit [classNamed (named "G") []])]

def fieldFiles : Files :=
  ⟨[(["A.java"], .text "A"), (["B.java"], .text "B"), (["C.java"], .text "C"),
    (["G.java"], .text "G")]⟩

/-- A profile of some of these files. -/
def fieldProfile (files : List String) : Except Fault Unit × Scene Profiler :=
  (profile (parserOf fieldTrees) fieldFiles false).run.run (opened files {})

/-- A file that is put in lets an analysis go on that was given up without it. -/
theorem added_file_goes_on :
    (∀ f ∈ ["C.java", "G.java", "B.java"], collects (parserOf fieldTrees) fieldFiles f = true) ∧
    (∀ x ∈ ["C.java", "B.java"].filterMap (alone (parserOf fieldTrees) fieldFiles),
      ∀ z ∈ alone (parserOf fieldTrees) fieldFiles "G.java", x.Apart z) ∧
    (["C.java", "B.java"].filterMap (alone (parserOf fieldTrees) fieldFiles)).Pairwise
      Collection.Apart ∧
    ∃ s s', fieldProfile ["C.java", "B.java"] = (.ok (), s) ∧
      fieldProfile ["C.java", "G.java", "B.java"] = (.ok (), s') ∧
      Carries List.Sublist s s' ∧ Carries List.IsPrefix s s' ∧
      ((classTable s).get? "C").map s.shared.registry.dependency = some ["A"] ∧
      ((classTable s').get? "C").map s'.shared.registry.dependency = some ["A", "G"] ∧
      cell s'.shared.numbering s'.self.matrix "C" "G" = some 1 := by
  have hcollects : ∀ f ∈ ["C.java", "G.java", "B.java"],
      collects (parserOf fieldTrees) fieldFiles f = true := by
    decide +kernel
  have hnew : ∀ x ∈ ["C.java", "B.java"].filterMap (alone (parserOf fieldTrees) fieldFiles),
      ∀ z ∈ alone (parserOf fieldTrees) fieldFiles "G.java", x.Apart z := by decide +kernel
  have hapart : (["C.java", "B.java"].filterMap (alone (parserOf fieldTrees) fieldFiles)).Pairwise
      Collection.Apart := by
    decide +kernel
  have hregular : ∀ t ∈ fieldTrees, Regular t.2 := by decide +kernel
  have hplain : ∀ x ∈ ["C.java", "G.java", "B.java"].filterMap (alone
      (parserOf fieldTrees) fieldFiles),
      ∀ name ∈ importNames x.tree, '(' ∉ name.toList := by decide +kernel
  have hvalues : ((classTable (fieldProfile ["C.java", "B.java"]).2).get? "C").map
        (fieldProfile ["C.java", "B.java"]).2.shared.registry.dependency = some ["A"] ∧
      ((classTable (fieldProfile ["C.java", "G.java", "B.java"]).2).get? "C").map
        (fieldProfile ["C.java", "G.java", "B.java"]).2.shared.registry.dependency =
          some ["A", "G"] ∧
      cell (fieldProfile ["C.java", "G.java", "B.java"]).2.shared.numbering
        (fieldProfile ["C.java", "G.java", "B.java"]).2.self.matrix "C" "G" = some 1 := by
          decide +kernel
  obtain ⟨s, s', hs, hs', -, hsublist, hprefix⟩ :=
    file_added ["C.java"] ["B.java"] "G.java" {} hcollects hnew
  change fieldProfile ["C.java", "B.java"] = _ at hs
  change fieldProfile ["C.java", "G.java", "B.java"] = _ at hs'
  rw [hs, hs'] at hvalues
  exact ⟨hcollects, hnew, hapart, s, s', hs, hs', hsublist,
    hprefix (.inr (forall_parserOf (by decide) hregular)) hapart hplain, hvalues⟩

/-- Where two files declare one name, what the added file lets the first of them note comes before
what the second has noted. -/
theorem added_file_comes_between :
    (∀ f ∈ ["A.java", "B.java", "G.java"], collects (parserOf fieldTrees) fieldFiles f = true) ∧
    (∀ x ∈ ["A.java", "B.java"].filterMap (alone (parserOf fieldTrees) fieldFiles),
      ∀ z ∈ alone (parserOf fieldTrees) fieldFiles "G.java", x.Apart z) ∧
    ((classTable (fieldProfile ["A.java", "B.java"]).2).get? "A").map
      (fieldProfile ["A.java", "B.java"]).2.shared.registry.dependency = some ["A"] ∧
    ((classTable (fieldProfile ["A.java", "B.java", "G.java"]).2).get? "A").map
      (fieldProfile ["A.java", "B.java", "G.java"]).2.shared.registry.dependency =
        some ["G", "A"] := by
  decide +kernel

end Profiler

end Coupling.Project
