import Coupling.Proofs.Identity

/-!
# What the requests of a file are about

The requests of a reading name symbols and types. In a collected file whose package and import
declarations come before all others (`HeadsFirst`), the symbols that the requests look up or change
are declared in the file itself, and a name that is noted is predefined, declared or imported in the
file, or has no dot (`script_within`). What a file imports is requested before all else
(`script_sorted`).

So no other file has a say in what a file's requests are about; it can only make more names known.
-/

namespace Coupling.Project

open Java (ParseTree NodeInfo)

/-! ## Names of types -/

theorem isDelimiter_of_mem_ofChars {cs w : List Char} (h : w ∈ (TypeText.ofChars cs).first ::
    (TypeText.ofChars cs).rest.map (·.2)) : ∀ c ∈ w, isDelimiter c = false := by
  induction cs generalizing w with
  | nil =>
    rw [List.mem_singleton.mp h]
    exact fun c hc => by cases hc
  | cons c cs ih =>
    rw [TypeText.ofChars, TypeText.cons] at h
    split at h
    · rcases List.mem_cons.mp h with rfl | h
      · exact fun c hc => by cases hc
      · exact ih h
    · next hc =>
      rcases List.mem_cons.mp h with rfl | h
      · intro c' hc'
        rcases List.mem_cons.mp hc' with rfl | hc'
        · exact Bool.eq_false_iff.mpr hc
        · exact ih List.mem_cons_self c' hc'
      · exact ih (List.mem_cons_of_mem _ h)

variable {type name : String} {full : Table String} {P : Request → Prop}

/-- The simple names that a type is made of have no dots. -/
theorem dot_not_mem_of_name {w : String} (h : w ∈ (TypeText.ofText type).names) :
    '.' ∉ w.toList := by
  obtain ⟨cs, hcs, rfl⟩ := List.mem_map.mp h
  intro hdot
  rw [String.toList_ofList] at hdot
  exact absurd (isDelimiter_of_mem_ofChars hcs _ hdot) (by decide)

/-- A name that a type is made of has no dot unless its file says what it stands for. -/
theorem mem_mentions (h : name ∈ mentions full type) :
    (∃ short, full.get? short = some name) ∨ '.' ∉ name.toList := by
  obtain ⟨short, hshort, rfl⟩ := List.mem_map.mp (List.mem_of_mem_filter h)
  unfold expand Table.getD
  cases hget : full.get? short with
  | some name => exact .inl ⟨short, hget⟩
  | none => exact .inr (dot_not_mem_of_name hshort)

/-! ## Heads first -/

mutual

/-- For each package and import declaration `true` and for each other declaration `false`, in their
order. -/
def marks : ParseTree → List Bool
  | .node info cs =>
    match Role.ofForm info.form with
    | .package | .import => [true]
    | .other => marksOf cs
    | _ => false :: marksOf cs
  | _ => []

def marksOf : List ParseTree → List Bool
  | [] => []
  | t :: ts => marks t ++ marksOf ts

end

/-- No package or import declaration comes after another declaration. -/
def HeadsFirst (t : ParseTree) : Prop := (marks t).Pairwise fun a b => b = true → a = true

instance (t : ParseTree) : Decidable (HeadsFirst t) :=
  inferInstanceAs (Decidable (List.Pairwise _ _))

mutual

/-- The names that are imported. -/
def importNames : ParseTree → List String
  | .node info cs =>
    match Role.ofForm info.form with
    | .package => []
    | .import => [Collect.importedName (.node info cs)]
    | _ => importNamesOf cs
  | _ => []

def importNamesOf : List ParseTree → List String
  | [] => []
  | t :: ts => importNames t ++ importNamesOf ts

end

mutual

theorem importNames_eq_nil : ∀ t : ParseTree, true ∉ marks t → importNames t = []
  | .token _, _ | .skipped _, _ | .missing _, _ => rfl
  | .node info cs, h => by
    rw [marks] at h
    rw [importNames]
    cases hrole : Role.ofForm info.form with
    | package => rfl
    | «import» => exact absurd List.mem_cons_self (by simpa only [hrole] using h)
    | other => exact importNamesOf_eq_nil cs (by simpa only [hrole] using h)
    | type kind | method | field =>
      exact importNamesOf_eq_nil cs fun hmem => absurd (List.mem_cons_of_mem _ hmem)
        (by simpa only [hrole] using h)

theorem importNamesOf_eq_nil : ∀ ts : List ParseTree, true ∉ marksOf ts → importNamesOf ts = []
  | [], _ => rfl
  | t :: ts, h => by
    rw [marksOf, List.mem_append, not_or] at h
    rw [importNamesOf, importNames_eq_nil t h.1, importNamesOf_eq_nil ts h.2]
    rfl

end

/-! ## Imports are requested first -/

def Request.isImport : Request → Bool
  | .import _ _ => true
  | _ => false

def Request.isFail : Request → Bool
  | .fail _ => true
  | _ => false

/-- A request of a package or import declaration. -/
def IsHead (r : Request) : Prop := r.isImport = true ∨ r.isFail = true

theorem forall_mem_attempt {α : Type} {part : Except Fault α} {rest : α → List Request}
    (hfail : ∀ fault, P (.fail fault)) (h : ∀ a, part = .ok a → ∀ r ∈ rest a, P r) :
    ∀ r ∈ attempt part rest, P r := by
  cases part with
  | error fault => exact List.forall_mem_singleton.mpr (hfail fault)
  | ok a => exact h a rfl

theorem forall_mem_referring {owner : Option Handle} {source : String}
    (hdepend : ∀ name ∈ mentions full type, P (.depend owner name))
    (hinteract : ∀ p q, P (.interact p q)) :
    ∀ r ∈ referring full owner source type, P r :=
  List.forall_mem_append.mpr ⟨List.forall_mem_map.mpr hdepend, List.forall_mem_map.mpr fun q _ =>
    hinteract source q⟩

theorem forall_mem_inheriting (hsuper : P (.super name (resolve full type)))
    (hdepend : ∀ q ∈ mentions full type, P (.depend (some (.ofClass name)) q))
    (hinteract : ∀ p q, P (.interact p q)) :
    ∀ r ∈ inheriting full name type, P r :=
  List.forall_mem_cons.mpr ⟨hsuper, forall_mem_referring hdepend hinteract⟩

section Sorted

variable {full : Table String}

/-- The import requests of a declaration are those of its parts. -/
theorem exists_mem_scriptAll {w : Place} {info : NodeInfo} {cs : List ParseTree}
    (hrole : Role.ofForm info.form ≠ .import) :
    ∀ r ∈ script full w (.node info cs), r.isImport = true → ∃ w', r ∈ scriptAll full w' cs := by
  have hno {r : Request} (h : r.isImport = false) : r.isImport = true →
      ∃ w', r ∈ scriptAll full w' cs :=
    fun h' => by rw [h] at h'; cases h'
  have hdepend {owner : Option Handle} (type : String) : ∀ name ∈ mentions full type,
      (Request.depend owner name).isImport = true →
      ∃ w', Request.depend owner name ∈ scriptAll full w' cs :=
    fun _ _ => hno rfl
  rw [script]
  cases hform : Role.ofForm info.form with
  | package => exact forall_mem_attempt (fun _ => hno rfl) fun _ _ r hr => by cases hr
  | «import» => exact absurd hform hrole
  | type kind =>
    refine forall_mem_attempt (fun _ => hno rfl) fun short _ =>
      forall_mem_attempt (fun _ => hno rfl) fun name _ => ?_
    refine List.forall_mem_cons.mpr ⟨hno rfl, forall_mem_attempt (fun _ => hno rfl) fun types _ =>
      ?_⟩
    refine List.forall_mem_append.mpr ⟨List.forall_mem_flatMap.mpr fun type _ => ?_,
      fun r hr _ => ⟨_, hr⟩⟩
    exact forall_mem_inheriting (hno rfl) (hdepend type) fun _ _ => hno rfl
  | method =>
    refine forall_mem_attempt (fun _ => hno rfl) fun key _ => forall_mem_attempt (fun _ => hno rfl)
      fun name _ => ?_
    refine List.forall_mem_cons.mpr ⟨hno rfl, List.forall_mem_cons.mpr ⟨hno rfl, ?_⟩⟩
    refine forall_mem_attempt (fun _ => hno rfl) fun types _ => ?_
    refine List.forall_mem_append.mpr ⟨List.forall_mem_flatMap.mpr fun type _ => ?_,
      fun r hr _ => ⟨_, hr⟩⟩
    exact forall_mem_referring (hdepend type) fun _ _ => hno rfl
  | field =>
    exact forall_mem_attempt (fun _ => hno rfl) fun type _ => forall_mem_referring (hdepend type)
      fun _ _ => hno rfl
  | other => exact fun r hr _ => ⟨w, hr⟩

mutual

/-- A tree without head declarations requests no imports. -/
theorem isImport_script : ∀ (t : ParseTree) (w : Place), true ∉ marks t → ∀ r ∈ script full w t,
    r.isImport = false
  | .token _, _, _, _, hr | .skipped _, _, _, _, hr | .missing _, _, _, _, hr => by cases hr
  | .node info cs, w, h, r, hr => by
    by_contra himport
    rw [Bool.not_eq_false] at himport
    rw [marks] at h
    cases hrole : Role.ofForm info.form with
    | «import» => exact absurd List.mem_cons_self (by simpa only [hrole] using h)
    | package =>
      obtain ⟨w', hmem⟩ := exists_mem_scriptAll (by rw [hrole]; simp) r hr himport
      exact absurd List.mem_cons_self (by simpa only [hrole] using h)
    | _ =>
      obtain ⟨w', hmem⟩ := exists_mem_scriptAll (by rw [hrole]; simp) r hr himport
      have hno := isImport_scriptAll cs w' (fun hm => h (by simp [hrole, hm])) r hmem
      rw [hno] at himport
      cases himport

theorem isImport_scriptAll : ∀ (ts : List ParseTree) (w : Place), true ∉ marksOf ts →
    ∀ r ∈ scriptAll full w ts, r.isImport = false
  | [], _, _, _, hr => by cases hr
  | t :: ts, w, h, r, hr => by
    rw [marksOf, List.mem_append, not_or] at h
    rw [scriptAll, List.mem_append] at hr
    rcases hr with hr | hr
    · exact isImport_script t w h.1 r hr
    · exact isImport_scriptAll ts w h.2 r hr

end

mutual

/-- A tree of head declarations requests nothing but imports. -/
theorem isHead_script : ∀ (t : ParseTree) (w : Place), false ∉ marks t →
    ∀ r ∈ script full w t, IsHead r
  | .token _, _, _, _, hr | .skipped _, _, _, _, hr | .missing _, _, _, _, hr => by cases hr
  | .node info cs, w, h, r, hr => by
    rw [marks] at h
    rw [script] at hr
    cases hrole : Role.ofForm info.form with
    | package =>
      simp only [hrole] at hr
      exact forall_mem_attempt (P := IsHead) (fun _ => .inr rfl) (fun _ _ r hr => by cases hr) r hr
    | «import» =>
      simp only [hrole] at hr
      exact forall_mem_attempt (P := IsHead) (fun _ => .inr rfl)
        (fun _ _ => List.forall_mem_singleton.mpr (.inl rfl)) r hr
    | other =>
      simp only [hrole] at hr h
      exact isHead_scriptAll cs w h r hr
    | _ => exact absurd List.mem_cons_self (by simpa only [hrole] using h)

theorem isHead_scriptAll : ∀ (ts : List ParseTree) (w : Place), false ∉ marksOf ts →
    ∀ r ∈ scriptAll full w ts, IsHead r
  | [], _, _, _, hr => by cases hr
  | t :: ts, w, h, r, hr => by
    rw [marksOf, List.mem_append, not_or] at h
    rw [scriptAll, List.mem_append] at hr
    rcases hr with hr | hr
    · exact isHead_script t w h.1 r hr
    · exact isHead_scriptAll ts w h.2 r hr

end

/-- A list without a `true` after a `false` has no `true` at all behind a `false`. -/
theorem not_mem_of_sorted {xs ys : List Bool}
    (h : (xs ++ ys).Pairwise fun a b => b = true → a = true)
    (hx : false ∈ xs) : true ∉ ys := fun hy => by
  have := (List.pairwise_append.mp h).2.2 false hx true hy rfl
  cases this

theorem not_mem_of_cons_sorted {ys : List Bool}
    (h : (false :: ys).Pairwise fun a b => b = true → a = true) : true ∉ ys :=
  not_mem_of_sorted (show ([false] ++ ys).Pairwise _ from h) List.mem_cons_self

mutual

/-- The imports of a tree whose head declarations come first are requested before all else. -/
theorem script_sorted : ∀ (t : ParseTree) (w : Place), HeadsFirst t →
    (script full w t).Pairwise fun a b => b.isImport = true → IsHead a
  | .token _, _, _ | .skipped _, _, _ | .missing _, _, _ => .nil
  | .node info cs, w, h => by
    rw [HeadsFirst, marks] at h
    have hnone (hm : true ∉ marks (.node info cs)) :
        (script full w (.node info cs)).Pairwise fun a b => b.isImport = true → IsHead a :=
      List.pairwise_of_forall_mem_list fun a _ b hb himport => by
        rw [isImport_script _ w hm b hb] at himport
        cases himport
    have hheads (hm : false ∉ marks (.node info cs)) :
        (script full w (.node info cs)).Pairwise fun a b => b.isImport = true → IsHead a :=
      List.pairwise_of_forall_mem_list fun a ha _ _ _ => isHead_script _ w hm a ha
    cases hrole : Role.ofForm info.form with
    | package | «import» => exact hheads (by simp [marks, hrole])
    | other =>
      rw [script]
      simp only [hrole] at h ⊢
      exact scriptAll_sorted cs w h
    | _ =>
      simp only [hrole] at h
      refine hnone fun hm => not_mem_of_cons_sorted h ?_
      simpa [marks, hrole] using hm

theorem scriptAll_sorted : ∀ (ts : List ParseTree) (w : Place),
    ((marksOf ts).Pairwise fun a b => b = true → a = true) →
    (scriptAll full w ts).Pairwise fun a b => b.isImport = true → IsHead a
  | [], _, _ => .nil
  | t :: ts, w, h => by
    rw [marksOf] at h
    rw [scriptAll]
    obtain ⟨hfirst, hrest, -⟩ := List.pairwise_append.mp h
    refine List.pairwise_append.mpr ⟨script_sorted t w hfirst, scriptAll_sorted ts w hrest,
      fun a ha b hb himport => ?_⟩
    refine isHead_script t w (fun hmem => ?_) a ha
    rw [isImport_scriptAll ts w (not_mem_of_sorted h hmem) b hb] at himport
    cases himport

end

mutual

/-- Every import of a tree whose head declarations come first is requested, if it has a name. -/
theorem exists_import : ∀ (t : ParseTree) (w : Place), HeadsFirst t →
    ∀ name ∈ importNames t, name ≠ "" →
    ∃ info, .import name info ∈ script full w t
  | .token _, _, _, _, hn, _ | .skipped _, _, _, _, hn, _ | .missing _, _, _, _, hn,
    _ => by cases hn
  | .node info cs, w, h, name, hn, hne => by
    rw [HeadsFirst, marks] at h
    rw [importNames] at hn
    cases hrole : Role.ofForm info.form with
    | package =>
      simp only [hrole] at hn
      cases hn
    | «import» =>
      rw [script]
      simp only [hrole] at hn ⊢
      rw [List.mem_singleton.mp hn] at hne ⊢
      unfold Collect.importedName at hne ⊢
      cases hq : (ParseTree.node info cs).first? .qualifiedName with
      | none =>
        rw [hq] at hne
        exact absurd rfl hne
      | some q => exact ⟨info, List.mem_cons_self⟩
    | other =>
      rw [script]
      simp only [hrole] at h hn ⊢
      exact existsAll_import cs w h name hn hne
    | _ =>
      simp only [hrole] at h hn
      have hnone := importNamesOf_eq_nil cs (not_mem_of_cons_sorted h)
      rw [hnone] at hn
      cases hn

theorem existsAll_import : ∀ (ts : List ParseTree) (w : Place),
    ((marksOf ts).Pairwise fun a b => b = true → a = true) → ∀ name ∈ importNamesOf ts, name ≠ "" →
    ∃ info, .import name info ∈ scriptAll full w ts
  | [], _, _, _, hn, _ => by cases hn
  | t :: ts, w, h, name, hn, hne => by
    rw [marksOf] at h
    obtain ⟨hfirst, hrest, -⟩ := List.pairwise_append.mp h
    rw [scriptAll]
    rcases List.mem_append.mp hn with hn | hn
    · obtain ⟨info, hmem⟩ := exists_import t w hfirst name hn hne
      exact ⟨info, List.mem_append_left _ hmem⟩
    · obtain ⟨info, hmem⟩ := existsAll_import ts w hrest name hn hne
      exact ⟨info, List.mem_append_right _ hmem⟩

end

end Sorted

/-! ## Names that requests use -/

/-- What a request of a file is about: its symbols are declared in the file, and a name that is
noted is predefined, declared or imported in the file, or has no dot. -/
def Request.Within (own : String → Prop) (imports : List String) : Request → Prop
  | .fail _ => True
  | .enter h => own h.name
  | .import name _ => name ∈ imports
  | .super name _ => own name
  | .depend owner name =>
    (∀ h, owner = some h → own h.name) ∧
      (isPredefined name = true ∨ own name ∨ '.' ∉ name.toList ∨ name ∈ imports)
  | .interact _ _ => True

/-- A declaration is looked up under a name of its own file. -/
def Declaration.LookedUpIn (own : String → Prop) (full : Table String) (d : Declaration) : Prop :=
  if d.kind = .method then
    ∀ key name, signatureOf full d.node = .ok key → full.get? key = some name → own name
  else
    ∀ n name, d.node.first? .identifier = some n → full.get? n.text = some name → own name

/-- What the simple names of a file stand for: what is predefined, declared or imported in it. -/
def StandsFor (own : String → Prop) (imports : List String) (full : Table String) : Prop :=
  ∀ short name, full.get? short = some name → isPredefined name = true ∨ own name ∨ name ∈ imports

section Within

variable {own : String → Prop} {imports : List String} {full : Table String}

theorem within_depend (hfull : StandsFor own imports full) {owner : Option Handle}
    (howner : ∀ h, owner = some h → own h.name)
    (type : String) : ∀ name ∈ mentions full type,
    (Request.depend owner name).Within own imports := by
  intro name hname
  refine ⟨howner, ?_⟩
  rcases mem_mentions hname with ⟨short, hshort⟩ | hdot
  · rcases hfull short name hshort with h | h | h
    · exact .inl h
    · exact .inr (.inl h)
    · exact .inr (.inr (.inr h))
  · exact .inr (.inr (.inl hdot))

mutual

/-- The requests of a file are about its own declarations and imports. -/
theorem script_within (hfull : StandsFor own imports full) :
    ∀ (t : ParseTree) (w : Place) (scope : Option SymbolId)
    (next : Nat), (∀ d ∈ seen scope next t, d.LookedUpIn own full) →
    (∀ h, w.owner = some h → own h.name) →
    importNames t ⊆ imports → ∀ r ∈ script full w t, r.Within own imports
  | .token _, _, _, _, _, _, _ | .skipped _, _, _, _, _, _, _ | .missing _, _, _, _, _, _, _ =>
    fun _ hr => by cases hr
  | .node info cs, w, scope, next, hseen, hw, himports => by
    rw [seen] at hseen
    rw [importNames] at himports
    rw [script]
    cases hrole : Role.ofForm info.form with
    | package => exact forall_mem_attempt (fun _ => trivial) fun _ _ r hr => by cases hr
    | «import» =>
      simp only [hrole] at himports
      refine forall_mem_attempt (fun _ => trivial) fun name hname =>
        List.forall_mem_singleton.mpr ?_
      obtain ⟨q, hq, rfl⟩ := exists_of_textOf hname
      refine himports (List.mem_singleton.mpr ?_)
      rw [Collect.importedName, hq]
      rfl
    | type kind =>
      simp only [hrole] at hseen himports
      obtain ⟨hown, hbelow⟩ := List.forall_mem_cons.mp hseen
      rw [Declaration.LookedUpIn, if_neg (Collect.kind_ne_method hrole)] at hown
      refine forall_mem_attempt (fun _ => trivial) fun short hshort => ?_
      obtain ⟨n, hn, rfl⟩ := exists_of_textOf hshort
      refine forall_mem_attempt (fun _ => trivial) fun name hname => ?_
      have hname := hown n name hn (Analyze.lookUp_eq_ok.mp hname)
      have hhandle : ∀ h, some (Handle.ofClass name) = some h → own h.name :=
        fun h hh => by cases hh; exact hname
      refine List.forall_mem_cons.mpr ⟨hname, forall_mem_attempt (fun _ => trivial) fun types _ =>
        ?_⟩
      refine List.forall_mem_append.mpr ⟨List.forall_mem_flatMap.mpr fun type _ => ?_,
        scriptAll_within hfull cs _ _ _ hbelow hhandle himports⟩
      exact forall_mem_inheriting hname (within_depend hfull hhandle type) fun _ _ => trivial
    | method =>
      simp only [hrole] at hseen himports
      obtain ⟨hown, hbelow⟩ := List.forall_mem_cons.mp hseen
      rw [Declaration.LookedUpIn, if_pos rfl] at hown
      refine forall_mem_attempt (fun _ => trivial) fun key hkey =>
        forall_mem_attempt (fun _ => trivial) fun name hname => ?_
      have hname := hown key name hkey (Analyze.lookUp_eq_ok.mp hname)
      have hhandle : ∀ h, some (Handle.ofSymbol name) = some h → own h.name :=
        fun h hh => by cases hh; exact hname
      refine List.forall_mem_cons.mpr ⟨hname,
        List.forall_mem_cons.mpr ⟨⟨hw, .inr (.inl hname)⟩, ?_⟩⟩
      refine forall_mem_attempt (fun _ => trivial) fun types _ => ?_
      refine List.forall_mem_append.mpr ⟨List.forall_mem_flatMap.mpr fun type _ => ?_,
        scriptAll_within hfull cs _ _ _ hbelow hhandle himports⟩
      exact forall_mem_referring (within_depend hfull hhandle type) fun _ _ => trivial
    | field =>
      exact forall_mem_attempt (fun _ => trivial) fun type _ =>
        forall_mem_referring (within_depend hfull hw type) fun _ _ => trivial
    | other =>
      simp only [hrole] at hseen himports
      exact scriptAll_within hfull cs w scope next hseen hw himports

theorem scriptAll_within (hfull : StandsFor own imports full) : ∀ (ts : List ParseTree) (w : Place)
    (scope : Option SymbolId) (next : Nat), (∀ d ∈ seenOf scope next ts, d.LookedUpIn own full) →
    (∀ h, w.owner = some h → own h.name) → importNamesOf ts ⊆ imports → ∀ r ∈ scriptAll full w ts,
    r.Within own imports
  | [], _, _, _, _, _, _ => fun _ hr => by cases hr
  | t :: ts, w, scope, next, hseen, hw, himports => by
    rw [seenOf, List.forall_mem_append] at hseen
    rw [importNamesOf, List.append_subset] at himports
    rw [scriptAll]
    exact List.forall_mem_append.mpr ⟨script_within hfull t w scope next hseen.1 hw himports.1,
      scriptAll_within hfull ts w scope _ hseen.2 hw himports.2⟩

end

end Within

/-! ## Names of a collected file -/

/-- Whether an item is a package or import declaration. -/
def Item.isHead : Item → Bool
  | .declaration _ => false
  | _ => true

mutual

/-- An outline has its items in the order of the tree. -/
theorem outline_sublist : ∀ (t : ParseTree) (scope : Option SymbolId) (next : Nat),
    ((outline scope next t).map Item.isHead).Sublist (marks t)
  | .token _, _, _ | .skipped _, _, _ | .missing _, _, _ => List.Sublist.refl _
  | .node info cs, scope, next => by
    rw [outline, marks]
    cases Role.ofForm info.form with
    | package | «import» => exact List.Sublist.refl _
    | type kind | method => exact (outlineOf_sublist cs (some next) (next + 1)).cons_cons false
    | field => exact (outlineOf_sublist cs scope next).cons false
    | other => exact outlineOf_sublist cs scope next

theorem outlineOf_sublist : ∀ (ts : List ParseTree) (scope : Option SymbolId) (next : Nat),
    ((outlineOf scope next ts).map Item.isHead).Sublist (marksOf ts)
  | [], _, _ => List.Sublist.refl _
  | t :: ts, scope, next => by
    rw [outlineOf, marksOf, List.map_append]
    exact (outline_sublist t scope next).append (outlineOf_sublist ts scope _)

end

/-- The name that an import in an outline is of. -/
def Item.imported? : Item → Option String
  | .import t => some (Collect.importedName t)
  | _ => none

mutual

/-- The imports of an outline are those of the tree. -/
theorem imports_outline : ∀ (t : ParseTree) (scope : Option SymbolId) (next : Nat),
    (outline scope next t).filterMap Item.imported? = importNames t
  | .token _, _, _ | .skipped _, _, _ | .missing _, _, _ => rfl
  | .node info cs, scope, next => by
    rw [outline, importNames]
    cases Role.ofForm info.form with
    | package | «import» => rfl
    | type kind | method => exact imports_outlineOf cs (some next) (next + 1)
    | field | other => exact imports_outlineOf cs scope next

theorem imports_outlineOf : ∀ (ts : List ParseTree) (scope : Option SymbolId) (next : Nat),
    (outlineOf scope next ts).filterMap Item.imported? = importNamesOf ts
  | [], _, _ => rfl
  | t :: ts, scope, next => by
    rw [outlineOf, importNamesOf, List.filterMap_append, imports_outline t, imports_outlineOf ts]

end

namespace Pass

variable {start : Nat} {c c' : Collected} {items : List Item}

/-- A method is known by its signature, read with what the names stood for then. -/
theorem signed (h : Pass start c items c') {d : Declaration} (hd : d ∈ declarations items)
    (hkind : d.kind = .method) :
    ∃ full, signatureOf full d.node = .ok (c'.registry.shortName d.id) := by
  induction h with
  | done c => cases hd
  | package name _ ih | «import» _ ih => exact ih hd
  | @declaration c c' d' s items hid hscope hs hrest ih =>
    rcases List.mem_cons.mp (show d ∈ d' :: declarations items from hd) with rfl | hmem
    · refine ⟨c.full, ?_⟩
      rw [hid, hrest.names_declare.2]
      exact hs.signature hkind
    · exact ih hmem

/-- If no package or import declaration comes after a declaration, its simple name stands for a
declaration. -/
theorem get?_full_of_declared (h : Pass start c items c') {pre more : List Item}
    (hitems : items = pre ++ more)
    (hmore : (more.map Item.isHead).Pairwise fun a b => b = true → a = true) {d : Declaration}
    (hd : d ∈ declarations more) : ∃ e ∈ declarations more,
      c'.full.get? (c'.registry.shortName d.id) = some (c'.registry.fullName e.id) := by
  obtain ⟨item, hitem, hdecl⟩ := List.mem_filterMap.mp hd
  obtain rfl : item = .declaration d := by
    cases item with
    | declaration d' => exact congrArg Item.declaration (Option.some_inj.mp hdecl)
    | _ => cases hdecl
  obtain ⟨left, right, rfl⟩ := List.append_of_mem hitem
  -- What comes after the declaration are declarations, so that one of them binds the name last.
  rw [List.map_append, List.map_cons] at hmore
  have hright := (List.pairwise_cons.mp (List.pairwise_append.mp hmore).2.1).1
  have hfull := h.full_eq
  rw [hitems, ← List.append_assoc, List.flatMap_append, List.flatMap_cons] at hfull
  rw [hfull]
  rcases Table.get?_update_last c.full ((pre ++ left).flatMap (bindings c'.registry))
    (c'.registry.shortName d.id)
    (c'.registry.fullName d.id) (right.flatMap (bindings c'.registry))
      with hget | ⟨name, hname, hget⟩
  · exact ⟨d, hd, hget⟩
  · obtain ⟨item, hmem, hbound⟩ := List.mem_flatMap.mp hname
    have hnothead : item.isHead = false := Bool.eq_false_iff.mpr fun hhead =>
      absurd (hright _ (List.mem_map_of_mem hmem) hhead) Bool.false_ne_true
    cases item with
    | declaration e =>
      obtain ⟨-, rfl⟩ := Prod.mk.inj (List.mem_singleton.mp hbound)
      refine ⟨e, ?_, hget⟩
      exact List.mem_filterMap.mpr ⟨.declaration e,
        List.mem_append_right _ (List.mem_cons_of_mem _ hmem), rfl⟩
    | package t | «import» t => cases hnothead

end Pass

/-- A file whose declarations were collected, with package and import declarations first and imports
of names without parentheses. -/
structure Tidy (tree : ParseTree) : Prop where
  headsFirst : HeadsFirst tree
  plain : ∀ name ∈ importNames tree, '(' ∉ name.toList

/-- The byte of a parenthesis is in none of the names of `java.lang`. -/
theorem bytes_javaLang : ∀ n ∈ javaLangNames, 40 ∉ n.toByteArray.data.toList := by
  decide +kernel

theorem paren_mem_bytes {s : String} (h : '(' ∈ s.toList) : 40 ∈ s.toByteArray.data.toList := by
  have hbytes : s.toByteArray = s.toList.utf8Encode := by
    rw [← String.toByteArray_ofList, String.ofList_toList]
  rw [hbytes, List.utf8Encode, List.data_toByteArray]
  exact List.mem_flatMap.mpr ⟨'(', h, by decide⟩

theorem plain_javaLang {short : String} (h : (short, name) ∈ javaLang.entries) :
    '(' ∉ short.toList := by
  obtain ⟨n, hn, heq⟩ := List.mem_map.mp h
  obtain ⟨rfl, -⟩ := Prod.mk.inj heq
  exact fun hparen => bytes_javaLang n hn (paren_mem_bytes hparen)

theorem afterLast_subset (s : String) (c : Char) : (Text.afterLast s c).toList ⊆ s.toList := by
  intro x hx
  rw [Text.afterLast, String.toList_ofList, List.mem_reverse] at hx
  exact List.mem_reverse.mp ((List.takeWhile_sublist _).subset hx)

section Collected

variable {registry : Registry} {file source : String} {tree : ParseTree} {c : Collected}

/-- Every declaration of a file is one of its symbols. -/
theorem contains_fullName (h : collect registry file source tree = .ok c) {d : Declaration}
    (hd : d ∈ declarations (firstOutline registry tree ++ secondOutline registry tree)) :
    c.symbols.contains (c.registry.fullName d.id) = true := by
  rw [(collect_pass h).symbols_eq, Table.contains_update, List.map_map]
  exact .inl (List.mem_map_of_mem hd)

theorem imports_outlines (registry : Registry) (tree : ParseTree) :
    (firstOutline registry tree ++ secondOutline registry tree).filterMap Item.imported? =
      importNames tree ++ importNames tree := by
  rw [List.filterMap_append, firstOutline, secondOutline, imports_outline, imports_outline]

/-- What a name of a collected file is bound to. -/
theorem bound_cases (h : collect registry file source tree = .ok c) {short name : String}
    (hget : c.full.get? short = some name) :
    (short, name) ∈ javaLang.entries ∨
      (∃ d ∈ declarations (firstOutline registry tree ++ secondOutline registry tree),
        short = c.registry.shortName d.id ∧ name = c.registry.fullName d.id) ∨
      name ∈ importNames tree ∧ short = Text.afterLast name '.' := by
  rw [(collect_pass h).full_eq] at hget
  rcases Table.get?_update_cases hget with hmem | hnone
  · obtain ⟨item, hitem, hbound⟩ := List.mem_flatMap.mp hmem
    cases item with
    | package t => exact .inl hbound
    | «import» t =>
      cases List.mem_singleton.mp hbound
      have hread := List.mem_filterMap.mpr ⟨_, hitem, (rfl : Item.imported? (.import t) = some _)⟩
      rw [imports_outlines, List.mem_append, or_self] at hread
      exact .inr (.inr ⟨hread, rfl⟩)
    | declaration d =>
      cases List.mem_singleton.mp hbound
      exact .inr (.inl ⟨d, List.mem_filterMap.mpr ⟨_, hitem, rfl⟩, rfl, rfl⟩)
  · cases hnone

theorem standsFor_collected (h : collect registry file source tree = .ok c) :
    StandsFor (fun name => c.symbols.contains name = true) (importNames tree) c.full := by
  intro short name hget
  rcases bound_cases h hget with hlang | ⟨d, hd, -, rfl⟩ | ⟨himport, -⟩
  · have hvalue : name ∈ javaLang.values := List.mem_map.mpr ⟨_, hlang, rfl⟩
    refine .inl ?_
    rw [isPredefined, List.contains_iff_mem.mpr hvalue, Bool.true_or]
  · exact .inr (.inl (contains_fullName h hd))
  · exact .inr (.inr himport)

theorem signatureOf_cases {full : Table String} {t : ParseTree} {key : String}
    (h : signatureOf full t = .ok key) :
    (∀ full', signatureOf full' t = .ok key) ∨ '(' ∈ key.toList := by
  unfold signatureOf at h ⊢
  obtain ⟨name, hname, h⟩ := Steps.except_bind_eq_ok.mp h
  obtain ⟨params, hparams, h⟩ := Steps.except_bind_eq_ok.mp h
  cases params with
  | none =>
    refine .inl fun full' => ?_
    rw [hname, hparams]
    exact h
  | some ps =>
    obtain ⟨types, -, h⟩ := Steps.except_bind_eq_ok.mp h
    cases h
    exact .inr (by simp [signature])

variable (h : collect registry file source tree = .ok c) (htidy : Tidy tree)
include h htidy

/-- The declarations of a tidy file are looked up under names of the file. -/
theorem lookedUp_collected :
    ∀ d ∈ declarations (secondOutline registry tree),
      d.LookedUpIn (fun name => c.symbols.contains name = true) c.full := by
  intro d hd
  have hpass := collect_pass h
  have horder := List.Pairwise.sublist (outline_sublist tree none
    (registry.size + (declarations (firstOutline registry tree)).length)) htidy.headsFirst
  obtain ⟨e, he, hget⟩ := hpass.get?_full_of_declared rfl horder hd
  have hown := contains_fullName h (mem_outlines he)
  unfold Declaration.LookedUpIn
  split
  · next hkind =>
    intro key name hkey hname
    obtain ⟨full, hsigned⟩ := hpass.signed (mem_outlines hd) hkind
    rcases signatureOf_cases hkey with hsame | hparen
    · -- Without parameters the signature is the name, whatever the names stand for.
      rw [hsame full] at hsigned
      cases hsigned
      rw [hget] at hname
      cases hname
      exact hown
    · rcases bound_cases h hname with hlang | ⟨d', hd', -, rfl⟩ | ⟨himport, rfl⟩
      · exact absurd hparen (plain_javaLang hlang)
      · exact contains_fullName h hd'
      · exact absurd (afterLast_subset name '.' hparen) (htidy.plain name himport)
  · next hkind =>
    intro n name hn hname
    obtain ⟨-, s, hs, -, -, hshort⟩ := hpass.described (mem_outlines hd)
    obtain ⟨n', hn', htext⟩ := hshort hkind
    rw [hn] at hn'
    cases hn'
    rw [htext, ← Registry.shortName_of_get? hs, hget] at hname
    cases hname
    exact hown

/-- **The requests of a tidy file are about itself**: about symbols it declares, and names that are
predefined, declared or imported in it, or have no dot. -/
theorem script_collected :
    ∀ r ∈ script c.full {} tree, r.Within (fun name => c.symbols.contains name = true)
      (importNames tree) :=
  script_within (standsFor_collected h) tree {} none _
    (fun d hd => lookedUp_collected h htidy d (seen_subset tree none _ hd))
      (fun _ hnone => by cases hnone)
    (List.Subset.refl _)

end Collected

end Coupling.Project
