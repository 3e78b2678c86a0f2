import Coupling.Proofs.Ownership

/-!
# Two views of the same references

References are kept twice: the matrix counts them from class to class, and each symbol has a list of
the names it depends on. The first goes by the class around a place, the second by the symbol around
it. In a project whose declarations keep their places the two agree: the count from one class to
another is the number of times that the second stands in the lists of all symbols that belong to the
first (`matrix_counts_dependencies`).

Both sides are compared with what the trees say, the counts with `references` and the lists with
`notes`; that these agree is shown by induction over a tree (`weigh_notes`).
-/

namespace Coupling.Project

open Java (ParseTree)
open Steps

/-! ## Counting notes -/

/-- How often a name is noted on one of some symbols. -/
def weigh (ids : List SymbolId) (q : String) (ns : List (Option SymbolId × String)) : Nat :=
  ns.countP fun n => n.1.any (fun id => decide (id ∈ ids)) && decide (n.2 = q)

theorem weigh_append (ids : List SymbolId) (q : String) (ns ns' : List (Option SymbolId × String)) :
    weigh ids q (ns ++ ns') = weigh ids q ns + weigh ids q ns' :=
  List.countP_append

theorem weigh_same (ids : List SymbolId) (q : String) (owner : Option SymbolId)
    (names : List String) :
    weigh ids q (names.map (owner, ·)) =
      if owner.any (fun id => decide (id ∈ ids)) then names.count q else 0 := by
  unfold weigh
  rw [List.countP_map]
  by_cases howner : owner.any (fun id => decide (id ∈ ids)) = true
  · simp [howner, List.count, Function.comp_def, beq_eq_decide]
  · rw [Bool.not_eq_true] at howner
    simp [howner, Function.comp_def]

variable {q : String} {ids : List SymbolId}

theorem count_notedOn (hq : isPredefined q = false) (id : SymbolId)
    (ns : List (Option SymbolId × String)) :
    (notedOn id ns).count q = weigh [id] q ns := by
  unfold notedOn weigh
  rw [List.count, List.countP_map, List.countP_filter]
  refine List.countP_congr fun n _ => ?_
  obtain ⟨owner, name⟩ := n
  cases owner with
  | none => simp
  | some o =>
    by_cases hname : name = q
    · simp [hname, hq]
    · simp [hname]

theorem weigh_cons {id : SymbolId} (hid : id ∉ ids) (q : String)
    (ns : List (Option SymbolId × String)) :
    weigh (id :: ids) q ns = weigh [id] q ns + weigh ids q ns := by
  unfold weigh
  induction ns with
  | nil => rfl
  | cons n ns ih =>
    obtain ⟨owner, name⟩ := n
    rw [List.countP_cons, List.countP_cons, List.countP_cons, ih]
    cases owner with
    | none => simp
    | some o =>
      by_cases ho : o = id
      · subst ho
        simp [hid]
        omega
      · simp [ho]
        omega

/-- The lists of some symbols hold a name as often as it is noted on one of them. -/
theorem count_notes (hq : isPredefined q = false) (hids : ids.Nodup)
    (ns : List (Option SymbolId × String)) :
    (ids.flatMap fun id => notedOn id ns).count q = weigh ids q ns := by
  induction ids with
  | nil => simp [weigh]
  | cons id ids ih =>
    obtain ⟨hid, hrest⟩ := List.nodup_cons.mp hids
    rw [List.flatMap_cons, List.count_append, count_notedOn hq, ih hrest, weigh_cons hid]

/-! ## Notes and references of a tree -/

/-- A place stands outside all declarations and classes, or the symbol around it is one of `ids`
just if the class around it is `p`. -/
def Linked (ids : List SymbolId) (p : String) : Option SymbolId → Option String → Prop
  | none, none => True
  | some o, some name => o ∈ ids ↔ name = p
  | _, _ => False

/-- What is noted on the symbol around a place counts as references of the class around it. -/
theorem weigh_linked {p : String} {scope : Option SymbolId} {source : Option String}
    (h : Linked ids p scope source) {names : List String} (hout : scope = none → q ∉ names) :
    weigh ids q (names.map (scope, ·)) = if source.getD "" = p then names.count q else 0 := by
  rw [weigh_same]
  cases scope with
  | none =>
    rw [List.count_eq_zero.mpr (hout rfl), ite_self, ite_self]
  | some o =>
    cases source with
    | none => cases h
    | some name =>
      have hiff : o ∈ ids ↔ name = p := h
      simp [hiff]

/-- How a declaration of a file stands to the symbols `ids` that belong to a class `p`, and to
another class `q`. -/
structure Kin (ids : List SymbolId) (p q : String) (full : Table String)
    (nameOf : SymbolId → String) (d : Declaration) : Prop where
  type : d.kind ≠ .method → (d.id ∈ ids ↔ nameOf d.id = p) ∧
    ∃ n, d.node.first? .identifier = some n ∧ full.get? n.text = some (nameOf d.id)
  method : d.kind = .method → nameOf d.id ≠ q ∧ ∃ o, d.scope = some o ∧ (d.id ∈ ids ↔ o ∈ ids)

theorem hits_referencesAt (p q : String) {full : Table String} {t : ParseTree}
    {above : List ParseTree}
    {source : Option String} (hidden : above.any isHiding = false)
    (h : classAround full (t :: above) = [source]) :
    hits p q (referencesAt full ⟨t, above⟩) =
      if source.getD "" = p then (statedNames full t).count q else 0 := by
  rw [hits_eq_count, counted_referencesAt hidden h, List.count, List.countP_map]
  by_cases hs : source.getD "" = p
  · simp [hs, List.count, Function.comp_def, beq_eq_decide]
  · simp [hs, Function.comp_def]

section Notes

variable {ids : List SymbolId} {p q : String} {full : Table String} {nameOf : SymbolId → String}

mutual

/-- The notes of a tree on the symbols of a class are the references from that class. -/
theorem weigh_notes : ∀ (t : ParseTree) {above : List ParseTree} {scope : Option SymbolId}
    {next : Nat}
    {source : Option String}, t.nests importsNames = true →
    (∀ d ∈ seen scope next t, Kin ids p q full nameOf d) →
    above.any isHiding = false → classAround full above = [source] → Linked ids p scope source →
    (∀ n ∈ notes full nameOf scope next t, n.1 = none → n.2 ≠ q) →
    weigh ids q (notes full nameOf scope next t) =
      hits p q ((spots above t).flatMap (referencesAt full))
  | .token _, _, _, _, _, _, _, _, _, _, _ | .skipped _, _, _, _, _, _, _, _, _, _, _
  | .missing _, _, _, _, _, _, _, _, _, _, _ => rfl
  | .node info cs, above, scope, next, source, hnest, hseen, hopen, haround, hlink, hout => by
    have hbelow : Java.allNest importsNames cs = true := (Bool.and_eq_true_iff.mp hnest).2
    rw [seen] at hseen
    rw [notes] at hout ⊢
    rw [spots, List.flatMap_cons, hits_append]
    cases hrole : roleOf (.node info cs) with
    | package =>
      rw [referencesAt_of_none (by simp only [statedTypes, hrole]),
        spotsOf_hidden full (by simp only [List.any_cons, isHiding, hrole, Bool.true_or])]
      simp only [show Role.ofForm info.form = .package from hrole]
      rfl
    | «import» =>
      have hnone := spots_import full above hrole hnest
      rw [spots, List.flatMap_cons] at hnone
      rw [← hits_append, hnone]
      simp only [show Role.ofForm info.form = .import from hrole]
      rfl
    | type kind =>
      simp only [show Role.ofForm info.form = .type kind from hrole] at hseen hout ⊢
      obtain ⟨hown, n, hn, hname⟩ :=
        (hseen _ List.mem_cons_self).type (Collect.kind_ne_method hrole)
      have hnear : classAround full (.node info cs :: above) = [some (nameOf next)] :=
        classAround_type hrole hn hname
      have hinside : Linked ids p (some next) (some (nameOf next)) := hown
      rw [weigh_append, weigh_linked hinside (fun h => by cases h),
        hits_referencesAt p q hopen hnear]
      exact congrArg _ (weigh_notesOf cs hbelow (fun d hd => hseen d (List.mem_cons_of_mem _ hd))
        (by simp only [List.any_cons, hopen, isHiding, hrole, Bool.or_self]) hnear hinside
        (fun n hn => hout n (List.mem_append_right _ hn)))
    | method =>
      simp only [show Role.ofForm info.form = .method from hrole] at hseen hout ⊢
      obtain ⟨hname, o, ho, hown⟩ := (hseen _ List.mem_cons_self).method rfl
      have hscope : scope = some o := ho
      subst hscope
      have hnear : classAround full (.node info cs :: above) = [source] :=
        (classAround_of_not_type above (by simp only [isType, hrole])).trans haround
      -- What is noted on the method counts for the class around it, since the method belongs to
      -- that class.
      have hinside : Linked ids p (some next) source := by
        cases source with
        | none => cases hlink
        | some name => exact hown.trans hlink
      have hself : weigh ids q [(some o, nameOf next)] = 0 := by simp [weigh, hname]
      rw [← List.singleton_append, weigh_append, hself, Nat.zero_add, weigh_append,
        weigh_linked hinside (fun h => by cases h), hits_referencesAt p q hopen hnear]
      exact congrArg _ (weigh_notesOf cs hbelow (fun d hd => hseen d (List.mem_cons_of_mem _ hd))
        (by simp only [List.any_cons, hopen, isHiding, hrole, Bool.or_self]) hnear hinside
        (fun n hn => hout n (List.mem_cons_of_mem _ (List.mem_append_right _ hn))))
    | field =>
      simp only [show Role.ofForm info.form = .field from hrole] at hout ⊢
      have hnear : classAround full (.node info cs :: above) = [source] :=
        (classAround_of_not_type above (by simp only [isType, hrole])).trans haround
      have houtside : scope = none → q ∉ statedNames full (.node info cs) := by
        rintro rfl hmem
        exact hout (none, q) (List.mem_map.mpr ⟨q, hmem, rfl⟩) rfl rfl
      rw [weigh_linked hlink houtside, hits_referencesAt p q hopen hnear,
        spotsOf_hidden full (by simp only [List.any_cons, isHiding, hrole, Bool.true_or])]
      rfl
    | other =>
      simp only [show Role.ofForm info.form = .other from hrole] at hseen hout ⊢
      rw [referencesAt_of_none (by simp only [statedTypes, hrole]), show hits p q [] = 0 from rfl,
        Nat.zero_add]
      exact weigh_notesOf cs hbelow hseen
        (by simp only [List.any_cons, hopen, isHiding, hrole, Bool.or_self])
        ((classAround_of_not_type above (by simp only [isType, hrole])).trans haround) hlink hout

theorem weigh_notesOf : ∀ (ts : List ParseTree) {above : List ParseTree} {scope : Option SymbolId}
    {next : Nat} {source : Option String}, Java.allNest importsNames ts = true →
    (∀ d ∈ seenOf scope next ts, Kin ids p q full nameOf d) →
    above.any isHiding = false → classAround full above = [source] → Linked ids p scope source →
    (∀ n ∈ notesOf full nameOf scope next ts, n.1 = none → n.2 ≠ q) →
    weigh ids q (notesOf full nameOf scope next ts) =
      hits p q ((spotsOf above ts).flatMap (referencesAt full))
  | [], _, _, _, _, _, _, _, _, _, _ => rfl
  | t :: ts, above, scope, next, source, hnest, hseen, hopen, haround, hlink, hout => by
    rw [Java.allNest, Bool.and_eq_true] at hnest
    rw [seenOf] at hseen
    rw [notesOf] at hout ⊢
    rw [spotsOf, List.flatMap_append, hits_append, weigh_append,
      weigh_notes t hnest.1 (fun d hd => hseen d (List.mem_append_left _ hd)) hopen haround hlink
        (fun n hn => hout n (List.mem_append_left _ hn)),
      weigh_notesOf ts hnest.2 (fun d hd => hseen d (List.mem_append_right _ hd)) hopen
        haround hlink
        (fun n hn => hout n (List.mem_append_right _ hn))]

end

end Notes

namespace Profiler

variable {parse : Parser} {fs : Files} {s s' : Scene Profiler}

/-! ## Readings that say nothing -/

/-- What is printed stays printed. -/
theorem lasting_printed (n : Nat) : Lasting fun s => n ≤ s.shared.printed.length where
  onText s words complained h := by
    rw [String.length_append]
    exact Nat.le_add_right_of_le h
  onRead _ _ _ _ _ h := h
  onAbsorb _ _ _ _ _ h _ := h
  onNumber _ h := h
  onInherit _ _ h _ := h

/-- An analysis of a file reads it to its end or prints something. -/
theorem analyzeFile_eq_ok {file : String} (h : (analyzeFile parse fs file).run.run s = (.ok (), s'))
    (hquiet : s'.shared.printed.length ≤ s.shared.printed.length) :
    ∃ full source a complained, s.self.full.get? file = some full ∧ fs.read file = .ok source ∧
      (Analyze.visit (setting file source full s) {} (parse source).tree).run.run (analysis s) =
        (.ok (), a) ∧
      s' = adopt a { s with shared := { s.shared with complained } } := by
  unfold analyzeFile at h
  obtain ⟨self, s₁, hself, h₁⟩ := bind_eq_ok.mp h
  cases hself
  obtain ⟨full, s₂, hlook, h₂⟩ := bind_eq_ok.mp h₁
  obtain ⟨hfull, rfl⟩ := liftExcept_eq_ok.mp hlook
  obtain ⟨source, s₃, hread, h₃⟩ := bind_eq_ok.mp h₂
  obtain ⟨hsource, rfl⟩ := liftExcept_eq_ok.mp hread
  obtain ⟨complained, hparsed⟩ := run_parsed parse source s₃
  rw [run_bind, hparsed] at h₃
  obtain ⟨s₄, s₅, hget, h₄⟩ := bind_eq_ok.mp h₃
  cases hget
  rcases hvisit : (Analyze.visit (setting file source full s₃) {} (parse source).tree).run.run
      (analysis s₃) with
    ⟨result, a⟩
  have hresult : (Analyze.visit
      (setting file source full { s₃ with shared := { s₃.shared with complained } }) {}
      (parse source).tree).run.run (analysis { s₃ with shared := { s₃.shared with complained } }) =
        (result, a) :=
    hvisit
  rw [hresult] at h₄
  obtain ⟨⟨⟩, s₆, hset, h₅⟩ := bind_eq_ok.mp h₄
  cases hset
  cases result with
  | ok _ =>
    cases h₅
    exact ⟨full, source, a, complained, Analyze.lookUp_eq_ok.mp hfull, hsource, hvisit, rfl⟩
  | error f =>
    -- What is printed then is at least a line feed.
    rw [run_say] at h₅
    cases h₅
    simp only [adopt, String.length_append] at hquiet
    have hfeed : "\n".length = 1 := by decide
    omega

/-! ## Names that cannot be mistaken -/

/-- The names of a project leave no doubt: nothing takes the place of a declaration, neither in its
file nor from another; no method has the full name of a class; and no class has a predefined
name. -/
structure WellNamed (xs : List Collection) (classes : ClassTable) : Prop where
  lasts : ∀ x ∈ xs, ∀ d ∈ declarations x.items, Lasts x.after x.items d
  apart : xs.Pairwise fun x y => ∀ d ∈ declarations x.items,
    y.after.symbols.contains (x.after.registry.fullName d.id) = false
  methods : ∀ x ∈ xs, ∀ d ∈ declarations x.items, d.kind = .method →
    classes.contains (x.after.registry.fullName d.id) = false
  classes : ∀ name ∈ classes.keys, isPredefined name = false

theorem WellNamed.keeps {classes : ClassTable} {pre post : List Collection} {x : Collection}
    (h : WellNamed (pre ++ x :: post) classes) {d : Declaration} (hd : d ∈ declarations x.items) :
    x.Keeps post d := by
  refine ⟨h.lasts x (by simp) d hd, fun y hy => ?_⟩
  have hpost := (List.pairwise_append.mp h.apart).2.1
  exact (List.pairwise_cons.mp hpost).1 y hy d hd

/-- What stands in the class table is declared in one of the files. -/
theorem Gathered.exists_declaration {files : List String} {shared : Shared}
    (h : Gathered (collections parse fs files shared.registry) (opened files shared) s)
    {name : String} {id : SymbolId}
    (hid : (Profiler.classTable s).get? name = some id) :
    ∃ x ∈ collections parse fs files shared.registry,
      ∃ d ∈ declarations x.readings, d.kind ≠ .method ∧ d.id = id := by
  rw [h.classTable] at hid
  rcases Table.get?_updateAll_cases hid with ⟨t, ht, hmem⟩ | hnone
  · obtain ⟨x, hx, rfl⟩ := List.mem_map.mp ht
    obtain ⟨d, hd, hkind, hid, -⟩ := (made_of_mem hx).pass.declared_of_class hmem
    exact ⟨x, hx, d, hd, hkind, hid⟩
  · simp [Profiler.classTable, opened, Profiler.new, Shared.table] at hnone

/-! ## Counts and lists side by side -/

/-- The count from one class to another is how often the second stands in the lists of some
symbols. -/
def Tallied (ids : List SymbolId) (p q : String) (s : Scene Profiler) : Prop :=
  cell s.shared.numbering s.self.matrix p q =
    some (Int64.ofNat ((ids.flatMap s.shared.registry.dependency).count q))

theorem count_flatMap_append (ids : List SymbolId) (f g : SymbolId → List String) (q : String) :
    (ids.flatMap fun id => f id ++ g id).count q = (ids.flatMap f).count q +
    (ids.flatMap g).count q := by
  induction ids with
  | nil => rfl
  | cons id ids ih =>
    simp only [List.flatMap_cons, List.count_append, ih]
    omega

/-- A count grows by as much as the lists do. -/
theorem Tallied.visit {ids : List SymbolId} {p q : String} (h : Tallied ids p q s) {x : Collection}
    {a : Analysis}
    (hids : ids.Nodup) (hlt : ∀ id ∈ ids, id < s.shared.registry.size) (hq : isPredefined q = false)
    (hkin : ∀ d ∈ x.seen, Kin ids p q x.after.full x.after.registry.fullName d)
    (hnest : x.tree.nests importsNames = true) (hsound : Sound s)
    (hpq : Analyze.Apart (settingOf x s) p q) (hgained : Analyze.Gained x.notes (analysis s) a)
    (hvisit : (Analyze.visit (settingOf x s) {} x.tree).run.run (analysis s) = (.ok (), a)) :
    Tallied ids p q (adopt a s) := by
  have hout : ∀ n ∈ x.notes, n.1 = none → n.2 ≠ q := by
    rintro n hn hnone rfl
    rw [hgained.outside n hn hnone] at hq
    cases hq
  have hweigh : weigh ids q x.notes = hits p q (references x.after.full x.tree) :=
    weigh_notes x.tree hnest hkin rfl rfl trivial hout
  have hlists : ids.flatMap a.registry.dependency =
      ids.flatMap fun id => s.shared.registry.dependency id ++ notedOn id x.notes :=
    List.flatMap_congr fun id hid => hgained.dependency id (hlt id hid)
  unfold Tallied at h ⊢
  show cell s.shared.numbering a.matrix p q =
    some (Int64.ofNat ((ids.flatMap a.registry.dependency).count q))
  rw [hsound.cell_visit hpq hnest hvisit, h, hlists, count_flatMap_append, count_notes hq hids,
    hweigh, Int64.ofNat_add]
  rfl

/-- A collected project, and one of its classes with its name and its declaration. -/
structure Subject (parse : Parser) (fs : Files) (files : List String) (shared : Shared)
    (s : Scene Profiler) (r : Registry) (p : String) (x : Collection) (d : Declaration) : Prop where
  gathered : Gathered (collections parse fs files shared.registry) (opened files shared) s
  settled : Settled parse fs (collections parse fs files shared.registry) r
  names : WellNamed (collections parse fs files shared.registry) (classTable s)
  named : Named (classTable s) r
  mem : x ∈ collections parse fs files shared.registry
  declared : d ∈ declarations x.readings
  kind : d.kind ≠ .method
  stands : (classTable s).get? p = some d.id

namespace Subject

variable {files : List String} {shared : Shared} {r : Registry} {p q : String} {x y : Collection}
  {d e : Declaration} (h : Subject parse fs files shared s r p x d)
include h

/-- The declarations of all files stand to the symbols of the class as their outlines say. -/
theorem kin (hq : (classTable s).contains q = true)
    (hy : y ∈ collections parse fs files shared.registry)
    (he : e ∈ y.seen) : Kin (r.owned d.id) p q y.after.full y.after.registry.fullName e := by
  have hdecl := y.seen_subset he
  have hread := Collection.mem_readings hdecl
  have hmade := h.settled.made y hy
  have hlasts := h.names.lasts y hy e hdecl
  obtain ⟨-, o, ho, -, -, htype⟩ := hmade.pass.described hread
  refine ⟨fun hkind => ?_, fun hkind => ?_⟩
  · obtain ⟨hname, -, hclass⟩ := collect_lasts hmade.collected hdecl hlasts
    obtain ⟨n, hn, htext⟩ := htype hkind
    rw [← Registry.shortName_of_get? ho] at htext
    refine ⟨?_, n, hn, by rw [htext]; exact hname⟩
    rw [h.settled.owned_type_iff h.mem h.declared hy hread hkind]
    constructor
    · intro heq
      rw [Registry.fullName_of_get? ho, ← (h.settled.later y hy).fullName ho, heq]
      exact h.named.fullName h.stands
    · intro heq
      -- The class table has one class for a name, and nothing has taken the place of this one.
      obtain ⟨pre, post, hsplit⟩ := List.append_of_mem hy
      have hnames := h.names
      have hgathered := h.gathered
      rw [hsplit] at hnames hgathered
      have hpost : ∀ z ∈ post, z.Made parse fs :=
        fun z hz => h.settled.made z (by rw [hsplit]; simp [hz])
      have htable := hgathered.classes_eq hmade hpost (hclass hkind) (hnames.keeps hdecl).2
      rw [heq, h.stands, Option.some_inj] at htable
      exact htable.symm
  · obtain ⟨o', ho'⟩ := hmade.pass.exists_scope hread hkind
    refine ⟨?_, o', ho', h.settled.owned_method_iff h.mem h.declared h.kind hy hdecl
      hkind hlasts ho'⟩
    intro heq
    have hnot := h.names.methods y hy e hdecl hkind
    rw [heq, hq] at hnot
    cases hnot

/-- Before any analysis all counts are zero and all lists are empty. -/
theorem tallied_number (hq : (classTable s).contains q = true) :
    Tallied (r.owned d.id) p q (number s) := by
  have hnone : ((r.owned d.id).flatMap (number s).shared.registry.dependency) = [] := by
    refine List.flatMap_eq_nil_iff.mpr fun m hm => ?_
    obtain ⟨e, he, rfl⟩ := h.settled.declared_of_owned h.mem h.declared hm
    obtain ⟨-, o, ho, -, hdep, -⟩ := (h.settled.made x h.mem).pass.described he
    exact (Registry.dependency_of_get? (h.gathered.kept x h.mem e.id o ho)).trans hdep
  have hp := Table.contains_iff_exists.mpr ⟨d.id, h.stands⟩
  obtain ⟨i, hi, hilt⟩ := Numbering.exists_index? (n := ⟨(classTable s).keys⟩)
    (Table.contains_iff_mem_keys.mp hp)
  obtain ⟨j, hj, hjlt⟩ := Numbering.exists_index? (n := ⟨(classTable s).keys⟩)
    (Table.contains_iff_mem_keys.mp hq)
  have hsize : (classTable s).keys.length = (classTable s).size := List.length_map _
  unfold Tallied cell
  rw [hnone]
  show (Numbering.index? ⟨(classTable s).keys⟩ p).bind _ = _
  rw [hi, Option.bind_some]
  show (Numbering.index? ⟨(classTable s).keys⟩ q).bind _ = _
  rw [hj, Option.bind_some]
  exact Matrix.cell?_zero (hsize ▸ hilt) (hsize ▸ hjlt)

/-- The names of a file that is analysed are those of one of its collections. -/
theorem exists_collection {file source : String} {full : Table String}
    (hfull : s.self.full.get? file = some full) (hread : fs.read file = .ok source) :
    ∃ y ∈ collections parse fs files shared.registry, y.file = file ∧ y.source = source ∧
      y.after.full = full ∧
      y.tree = (parse source).tree := by
  rw [h.gathered.full] at hfull
  rcases Table.get?_update_cases hfull with hmem | hnone
  · obtain ⟨y, hy, heq⟩ := List.mem_map.mp hmem
    cases heq
    have hmade := h.settled.made y hy
    have hsource : y.source = source := by
      have hsame := hmade.read.symm.trans hread
      cases hsame
      rfl
    exact ⟨y, hy, rfl, hsource, rfl, by rw [← hsource]; exact hmade.parsed⟩
  · cases hnone

variable (hparse : ∀ text, (parse text).tree.nests importsNames = true)
  (hq : (classTable s).contains q = true)
  (hne : p ≠ q)
include hparse hq hne

/-- A file that is analysed without a word leaves counts and lists in agreement. -/
theorem tallied_analyzeFile {s₁ s₂ : Scene Profiler} {file : String} (hsince : Since (number s) s₁)
    (hsound : Sound s₁) (hrun : (analyzeFile parse fs file).run.run s₁ = (.ok (), s₂))
    (hquiet : s₂.shared.printed.length ≤ s₁.shared.printed.length)
    (ht : Tallied (r.owned d.id) p q s₁) :
    Tallied (r.owned d.id) p q s₂ := by
  obtain ⟨full, source, a, complained, hfull, hread, hvisit, rfl⟩ := analyzeFile_eq_ok hrun hquiet
  rw [hsince.full] at hfull
  obtain ⟨y, hy, rfl, rfl, rfl, htree⟩ := h.exists_collection hfull hread
  rw [← htree] at hvisit
  obtain ⟨pre, post, hsplit⟩ := List.append_of_mem hy
  have hnames := h.names
  have hgathered := h.gathered
  rw [hsplit] at hnames hgathered
  have hgained := (visit_gained hsplit hgathered hsince hsound fun e he =>
    hnames.keeps (y.seen_subset he)).2 a hvisit
  have hlt : ∀ m ∈ r.owned d.id, m < s₁.shared.registry.size := by
    intro m hm
    obtain ⟨e, he, rfl⟩ := h.settled.declared_of_owned h.mem h.declared hm
    obtain ⟨-, o, ho⟩ := h.settled.get? h.mem he
    exact Nat.lt_of_lt_of_le (Registry.lt_size_of_get? ho)
      (later_of_collected h.gathered h.mem hsince).size_le
  have hpq : Analyze.Apart (settingOf y s₁) p q := by
    have htable : (settingOf y s₁).classes = classTable s := hsince.classTable
    refine ⟨hne, ?_, ?_⟩
    · rw [htable]
      exact Table.contains_iff_exists.mpr ⟨d.id, h.stands⟩
    · rw [htable]
      exact hq
  have hplain : isPredefined q = false := h.names.classes q (Table.contains_iff_mem_keys.mp hq)
  exact ht.visit (Registry.nodup_belonging _) hlt hplain (fun e he => h.kin hq hy he)
    (by rw [htree]; exact hparse _) hsound hpq hgained hvisit

/-- So does an analysis of many files. -/
theorem tallied_analyzeFiles (rest : List String) {s₁ s₂ : Scene Profiler}
    (hsince : Since (number s) s₁)
    (hsound : Sound s₁) (hrun : (rest.forM (analyzeFile parse fs)).run.run s₁ = (.ok (), s₂))
    (hquiet : s₂.shared.printed.length ≤ s₁.shared.printed.length)
    (ht : Tallied (r.owned d.id) p q s₁) :
    Tallied (r.owned d.id) p q s₂ := by
  induction rest generalizing s₁ with
  | nil =>
    rw [forM_nil_eq_ok] at hrun
    rwa [hrun]
  | cons file rest ih =>
    obtain ⟨s', hfile, hrest⟩ := forM_cons_eq_ok.mp hrun
    -- Nothing is ever taken back of what is printed, so that neither part of the run prints
    -- anything.
    have hfirst : s₁.shared.printed.length ≤ s'.shared.printed.length :=
      ((lasting_printed _).keeps_analyzeFile file).of_run (Nat.le_refl _) hfile
    have hsecond : s'.shared.printed.length ≤ s₂.shared.printed.length :=
      (keeps_forM rest (lasting_printed _).keeps_analyzeFile).of_run (Nat.le_refl _) hrest
    have hsince' : Since (number s) s' :=
      ((steady_since (number s)).keeps_analyzeFile file).of_run hsince hfile
    have hsound' : Sound s' := (lasting_sound.keeps_analyzeFile file).of_run hsound hfile
    exact ih hsince' hsound' hrest (Nat.le_trans hquiet hfirst)
      (h.tallied_analyzeFile hparse hq hne hsince hsound hfile (Nat.le_trans hsecond hquiet) ht)

end Subject

/-- **Two views of the same references.** Take a project that is profiled without any word of a
fault, and whose names leave no doubt. Then the count from one class to another is the number of
times that the second stands in the dependencies of the symbols that belong to the first: of the
class, of its methods, of the methods declared in these, and so on. -/
theorem matrix_counts_dependencies (parse : Parser) (fs : Files) (files : List String)
    (shared : Shared) (s : Scene Profiler) (p q : String)
    (hparse : parse = Java.parse ∨ ∀ text, (parse text).tree.nests importsNames = true)
    (hprofile : (profile parse fs false).run.run (opened files shared) = (.ok (), s))
    (hquiet : s.shared.printed = shared.printed)
    (hnames : WellNamed (collections parse fs files shared.registry) (classTable s))
    (hp : p ∈ (classTable s).keys) (hq : q ∈ (classTable s).keys) (hne : p ≠ q) :
    ∃ id, (classTable s).get? p = some id ∧
      cell s.shared.numbering s.self.matrix p q =
        some (Int64.ofNat
          (((s.shared.registry.owned id).flatMap s.shared.registry.dependency).count q)) := by
  have hnest : ∀ text, (parse text).tree.nests importsNames = true := by
    rcases hparse with rfl | hnest
    · exact parse_importsNames
    · exact hnest
  unfold profile at hprofile
  obtain ⟨⟨⟩, s₁, hcollect, h₁⟩ := bind_eq_ok.mp hprofile
  obtain ⟨⟨⟩, s₂, hanalyze, h₂⟩ := bind_eq_ok.mp h₁
  cases h₂
  obtain ⟨s₀, rfl, hgathered⟩ := collectAll_eq_ok hcollect
  have hrun : (files.forM (analyzeFile parse fs)).run.run (number s₀) = (.ok (), s) := by
    unfold analyzeAll at hanalyze
    obtain ⟨self, s₃, hself, h₃⟩ := bind_eq_ok.mp hanalyze
    cases hself
    have hfiles : (number s₀).self.files = files := hgathered.files
    rwa [hfiles] at h₃
  have hstart : Sound (number s₀) := lasting_sound.keeps_collectAll.of_run
    (sound_opened files shared) hcollect
  have hsince : Since (number s₀) s :=
    (keeps_forM files (steady_since (number s₀)).keeps_analyzeFile).of_run (.refl _) hrun
  have hsound : Sound s := (keeps_forM files lasting_sound.keeps_analyzeFile).of_run hstart hrun
  have hsilent : s.shared.printed.length ≤ (number s₀).shared.printed.length := by
    rw [hquiet]
    exact (lasting_printed _).keeps_collectAll.of_run (Nat.le_refl _) hcollect
  have htable : classTable s = classTable s₀ := hsince.classTable
  obtain ⟨id, hid⟩ := Table.contains_iff_exists.mp (Table.contains_iff_mem_keys.mpr hp)
  have hstands : (classTable s₀).get? p = some id := by rw [← htable]; exact hid
  obtain ⟨x, hx, d, hd, hkind, rfl⟩ := hgathered.exists_declaration hstands
  have hsettled : Settled parse fs (collections parse fs files shared.registry) s.shared.registry :=
    ⟨fun _ => made_of_mem, collections_pairwise files _, fun y hy =>
      later_of_collected hgathered hy hsince⟩
  have hsubject : Subject parse fs files shared s₀ s.shared.registry p x d :=
    ⟨hgathered, hsettled, htable ▸ hnames, htable ▸ hsound.named, hx, hd, hkind, hstands⟩
  have hcontains : (classTable s₀).contains q = true := by
    rw [← htable]
    exact Table.contains_iff_mem_keys.mpr hq
  refine ⟨d.id, hid, ?_⟩
  exact hsubject.tallied_analyzeFiles hnest hcontains hne files (.refl _) hstart hrun hsilent
    (hsubject.tallied_number hcontains)

/-- What a profiler knows when it has profiled a tree as the only file. -/
def onlyProfile (tree : ParseTree) : Except Fault Unit × Scene Profiler :=
  (profile (parserOf [("A", tree)]) oneFile false).run.run (opened ["A.java"] {})

/-- How often a name stands in the dependencies of the symbols that belong to a class. -/
def listed (s : Scene Profiler) (p q : String) : Option Nat :=
  ((classTable s).get? p).map fun id =>
  ((s.shared.registry.owned id).flatMap s.shared.registry.dependency).count q

theorem parserOf_nests {tree : ParseTree} (h : tree.nests importsNames = true) (text : String) :
    (parserOf [("A", tree)] text).tree.nests importsNames = true := by
  unfold parserOf
  by_cases htext : "A" = text
  · simp [List.find?, htext, h]
  · have hother : ("A" == text) = false := by simpa using htext
    simp only [List.find?, hother]
    decide +kernel

/-- A class with a field of another class and with a method that has a local variable of it. -/
def fieldAndLocal : ParseTree :=
  branch .compilationUnit [classNamed (named "A") [fieldOf "B", methodNamed "run" [localOf "B"]],
    classNamed (named "B") []]

/-- The field is noted on the class and the variable on its method; both are counted. -/
theorem fieldAndLocal_agree :
    (onlyProfile fieldAndLocal).1.toBool = true ∧
    listed (onlyProfile fieldAndLocal).2 "A" "B" = some 2 ∧
      cell (onlyProfile fieldAndLocal).2.shared.numbering
        (onlyProfile fieldAndLocal).2.self.matrix "A" "B" =
        some 2 := by
  have hend : (onlyProfile fieldAndLocal).1.toBool = true := by decide +kernel
  have hlisted : listed (onlyProfile fieldAndLocal).2 "A" "B" = some 2 := by decide +kernel
  have hnames : WellNamed (collections (parserOf [("A", fieldAndLocal)]) oneFile ["A.java"] .empty)
      (classTable (onlyProfile fieldAndLocal).2) :=
    ⟨by decide +kernel, by decide +kernel, by decide +kernel, by decide +kernel⟩
  obtain ⟨id, hid, hcell⟩ := matrix_counts_dependencies (parserOf [("A", fieldAndLocal)]) oneFile
    ["A.java"] {}
    (onlyProfile fieldAndLocal).2 "A" "B" (.inr (parserOf_nests (by decide +kernel)))
      (eq_ok_of_toBool hend)
    (by decide +kernel) hnames (by decide +kernel) (by decide +kernel) (by decide)
  refine ⟨hend, hlisted, ?_⟩
  unfold listed at hlisted
  rw [hid, Option.map_some, Option.some_inj] at hlisted
  rw [hcell, hlisted]
  rfl

/-- A class with the name of a primitive type, and a class with a field of it. -/
def primitiveClass : ParseTree :=
  branch .compilationUnit [classNamed (named "int") [], classNamed (named "A") [fieldOf "int"]]

/-- Parameters of two types. -/
def twoParams (type type' : String) : List ParseTree :=
  [branch .formalParameterList ([type, type'].map fun t =>
    branch .formalParameter [branch .typeType [named t], branch .variableDeclaratorId [named "x"]])]

/-- Two classes with a method of the same name and parameters, one of which is of an unknown type
`foo`. Between them a method `foo` is declared, so that the parameter stands for something else in
the second class than in the first. -/
def unknownType : ParseTree :=
  branch .compilationUnit [packageOf "p",
    classNamed (named "A") [methodTaking (twoParams "foo" "D") "q" [localOf "B"],
      methodTaking (twoParams "B" "D") "m" [methodNamed "foo" []]],
    classNamed (named "C") [methodTaking (twoParams "foo" "D") "q" []],
    classNamed (named "B") [], classNamed (named "D") []]

/-- The views differ where a class has a predefined name, which no list holds, and where the
signature of a method is not what the method was stored under, so that its references are noted on
another one. -/
theorem views_differ :
    ((onlyProfile primitiveClass).1.toBool = true ∧
      (onlyProfile primitiveClass).2.shared.printed = "" ∧
      cell (onlyProfile primitiveClass).2.shared.numbering
        (onlyProfile primitiveClass).2.self.matrix "A" "int" =
        some 1 ∧ listed (onlyProfile primitiveClass).2 "A" "int" = some 0) ∧
    ((onlyProfile unknownType).1.toBool = true ∧ (onlyProfile unknownType).2.shared.printed = "" ∧
      cell (onlyProfile unknownType).2.shared.numbering (onlyProfile unknownType).2.self.matrix
        "p.A" "p.B" =
        some 2 ∧ listed (onlyProfile unknownType).2 "p.A" "p.B" = some 1) := by
  decide +kernel

end Profiler

end Coupling.Project
