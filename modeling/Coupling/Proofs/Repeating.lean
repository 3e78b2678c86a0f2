import Coupling.Proofs.Renumbering

/-!
# Profiles can be repeated

A profile starts from what earlier calls have left. The files are collected anew, so that the
symbols of an earlier profile give their names to new ones; but imports that an earlier profile has
made symbols are known from the start. As long as imports are of dotted names, they let nothing
through that was not let through before, and a second profile says just what the first one said
(`profile_repeatable`).

This needs the files to be the same in all calls: then every class that is known is declared in one
of them (`Familiar`), and nothing is noted on a symbol that was not made in the same profile
(`Continued.none_found`).
-/

namespace Coupling.Project

open Steps

namespace Profiler

variable {parse : Parser} {fs : Files} {files : List String}

/-! ## Calls on the same files -/

/-- The call reads its files there, if it reads any. -/
def Call.Reads (fs : Files) : Call → Prop
  | .collect fs' => fs' = fs
  | .analyze fs' => fs' = fs
  | .profile fs' _ => fs' = fs
  | .inherit _ => True

/-- What is known of a project whose files are always the same: a class is declared in one of the
files, and a file whose names are known can be collected. -/
structure Familiar (parse : Parser) (fs : Files) (files : List String) (s : Scene Profiler) :
    Prop where
  own : s.self.classes < s.shared.tables.size
  files_eq : s.self.files = files
  classes : ∀ name, (classTable s).contains name = true →
    (namesOf (files.filterMap (alone parse fs))).classes name = true
  full : ∀ file, s.self.full.contains file = true → collects parse fs file = true

theorem familiar_opened (parse : Parser) (fs : Files) (files : List String) (shared : Shared) :
    Familiar parse fs files (opened files shared) where
  own := (sound_opened files shared).own
  files_eq := rfl
  classes name hname := by
    rw [show classTable (opened files shared) = ∅ by simp [opened, Profiler.new, classTable,
      Shared.table]] at hname
    cases hname
  full _ hfile := by cases hfile

theorem steady_familiar : Steady (Familiar parse fs files) where
  onText _ _ _ h := ⟨h.own, h.files_eq, h.classes, h.full⟩
  onRead _ _ _ _ _ h := ⟨h.own, h.files_eq, h.classes, h.full⟩

/-- The classes of a file are those that it has on its own. -/
theorem keeps_familiar_collectFile {file : String} (hfile : file ∈ files) :
    Keeps (Familiar parse fs files) (collectFile parse fs file) := by
  intro s h
  rw [run_collectFile]
  cases hread : fs.read file with
  | error f => exact h
  | ok source =>
    simp only
    cases hc : collect s.shared.registry file source (parse source).tree with
    | error f => exact ⟨h.own, h.files_eq, h.classes, h.full⟩
    | ok c =>
      have hcollects : collects parse fs file = true := by
        rw [collects, hread]
        show (collect .empty file source (parse source).tree).toBool = true
        rw [← collect_toBool s.shared.registry, hc]
        rfl
      obtain ⟨x, hx⟩ := exists_alone hcollects
      obtain ⟨hread', -, hcollect⟩ := collect_of_alone hx s.shared.registry
      cases hread.symm.trans hread'
      cases hc.symm.trans hcollect
      show Familiar parse fs files (absorb file (x.after.onto s.shared.registry)
        (heard parse x.source s))
      refine ⟨by simpa [absorb, heard] using h.own, h.files_eq, fun name hname => ?_,
        fun file' hfile' => ?_⟩
      · rw [classTable_absorb (s := heard parse x.source s) h.own] at hname
        rcases Table.contains_update.mp hname with hmem | hold
        · have hin : (x.after.onto s.shared.registry).classes.contains name = true :=
            Table.contains_iff_mem_keys.mpr hmem
          rw [show (x.after.onto s.shared.registry).classes =
            x.after.classes.shift s.shared.registry.size from rfl, Table.contains_shift] at hin
          exact classes_namesOf (List.mem_filterMap.mpr ⟨file, hfile, hx⟩) hin
        · exact h.classes name hold
      · rcases Bool.or_eq_true_iff.mp ((Table.contains_put).symm.trans hfile') with heq | hold
        · rw [of_decide_eq_true heq]
          exact hcollects
        · exact h.full file' hold

theorem keeps_familiar_collectAll : Keeps (Familiar parse fs files) (collectAll parse fs) := by
  intro s h
  unfold collectAll Action.self
  simp only [bind_assoc, pure_bind, run_bind, run_get, h.files_eq]
  have hfile : ∀ file ∈ files, Keeps (Familiar parse fs files) (collectFile parse fs file) :=
    fun file hfile => keeps_familiar_collectFile hfile
  have hkept := keeps_forM_of_mem hfile s h
  rcases hrun : (files.forM (collectFile parse fs)).run.run s with ⟨_ | _, s'⟩
  · rw [hrun] at hkept
    exact hkept
  · rw [hrun] at hkept
    exact ⟨hkept.own, hkept.files_eq, hkept.classes, hkept.full⟩

theorem keeps_familiar_inheriting {α : Type} (step : Registry → ClassTable → Numbering →
    Inherit α) :
    Keeps (Familiar parse fs files) (inheriting step) := by
  intro s h
  rw [run_inheriting]
  exact ⟨h.own, h.files_eq, h.classes, h.full⟩

theorem keeps_familiar_call {call : Call} (hcall : call.Reads fs) :
    Keeps (Familiar parse fs files) (call.action parse) := by
  cases call with
  | collect fs' =>
    obtain rfl := hcall
    exact keeps_familiar_collectAll
  | analyze fs' => exact steady_familiar.keeps_analyzeAll
  | profile fs' inherited =>
    obtain rfl := hcall
    refine keeps_bind keeps_familiar_collectAll fun _ =>
      keeps_bind steady_familiar.keeps_analyzeAll fun _ => ?_
    split
    · exact keeps_familiar_inheriting _
    · exact keeps_pure _
  | inherit id => exact keeps_bind (keeps_familiar_inheriting _) fun _ => keeps_pure _

theorem Familiar.after {s : Scene Profiler} {calls : List Call}
    (hcalls : ∀ call ∈ calls, call.Reads fs)
    (h : Familiar parse fs files s) : Familiar parse fs files (after parse calls s) := by
  induction calls generalizing s with
  | nil => exact h
  | cons call calls ih =>
    obtain ⟨hcall, hrest⟩ := List.forall_mem_cons.mp hcalls
    exact ih hrest (keeps_familiar_call hcall s h)

/-- Analyses that come to their end are of files that can be collected. -/
theorem Familiar.collects_of_analyzeFiles {s s' : Scene Profiler} {list : List String}
    (h : Familiar parse fs files s)
    (hrun : (list.forM (analyzeFile parse fs)).run.run s = (.ok (), s')) :
    ∀ file ∈ list, collects parse fs file = true := by
  induction list generalizing s with
  | nil => exact nofun
  | cons file list ih =>
    obtain ⟨s₁, h₁, h₂⟩ := forM_cons_eq_ok.mp hrun
    have hnext := (steady_familiar.keeps_analyzeFile file).of_run h h₁
    refine List.forall_mem_cons.mpr ⟨h.full file ?_, ih hnext h₂⟩
    rw [run_analyzeFile] at h₁
    cases hfull : s.self.full.get? file with
    | none =>
      rw [hfull] at h₁
      cases h₁
    | some full => exact Table.contains_iff_exists.mpr ⟨full, hfull⟩

/-- A profile that comes to its end is of files that can be collected. -/
theorem Familiar.collects_of_profile {s s' : Scene Profiler} {inherited : Bool}
    (h : Familiar parse fs files s)
    (hrun : (profile parse fs inherited).run.run s = (.ok (), s')) :
    ∀ file ∈ files, collects parse fs file = true := by
  unfold profile at hrun
  obtain ⟨⟨⟩, s₁, h₁, hrest⟩ := bind_eq_ok.mp hrun
  obtain ⟨⟨⟩, s₂, h₂, -⟩ := bind_eq_ok.mp hrest
  have hfamiliar := keeps_familiar_collectAll.of_run h h₁
  unfold analyzeAll Action.self at h₂
  simp only [bind_assoc, pure_bind, run_bind, run_get, hfamiliar.files_eq] at h₂
  exact hfamiliar.collects_of_analyzeFiles h₂

end Profiler

open Profiler

/-! ## A second profile -/

theorem le_size_stack (r : Registry) (xs : List Collection) : r.size ≤ (stack r xs).size := by
  induction xs generalizing r with
  | nil => exact Nat.le_refl _
  | cons x xs ih =>
    refine Nat.le_trans ?_ (ih (r.onto x.after.registry))
    rw [Registry.size_onto]
    exact Nat.le_add_right _ _

/-- What is found is a symbol of the profiler. -/
theorem Profiler.Grown.find_range {start : Nat} {s : Scene Profiler} (h : Grown start s)
    {g : Handle} {id : SymbolId}
    (hid : g.find (classTable s) s.self.symbols = some id) :
    start ≤ id ∧ id < s.shared.registry.size := by
  cases g with
  | ofClass name => exact h.rooted.classes id (Table.mem_values_of_get? hid)
  | ofSymbol name => exact h.rooted.symbols id (Table.mem_values_of_get? hid)

/-- What is granted in a profile is granted again when its imports are known from the start. -/
theorem performed_again {v : Names} {xs : List Collection} (hxs : ∀ x ∈ xs, x.Steady)
    (hown : ∀ x ∈ xs, ∀ name, x.after.symbols.contains name = true → v.symbols name = true) :
    performed (v.after (performed v (xs.map Collection.script))) (xs.map Collection.script) =
      performed v (xs.map Collection.script) := by
  have hfirst := performed_eq_flatMap hxs (Names.Beyond.refl v) hown
  have hbeyond : v.Beyond (v.after (performed v (xs.map Collection.script))) := by
    refine (Names.Beyond.refl v).after fun name info hmem => ?_
    rw [hfirst] at hmem
    obtain ⟨x, hx, hgranted⟩ := List.mem_flatMap.mp hmem
    exact ((hxs x hx).dotted_of_import (granted_subset v _ hgranted)).1
  rw [performed_eq_flatMap hxs hbeyond hown, hfirst]

/-- Where the symbols of a profile are after the next one: those that were collected have been made
again, after all others, and the rest has stayed. -/
def movedOn (s s' : Scene Profiler) (xs : List Collection) (id : Nat) : Nat :=
  if s.shared.registry.size ≤ id ∧ id < (stack s.shared.registry xs).size then
    id + (s'.shared.registry.size - s.shared.registry.size) else id

section MovedOn

variable {s s' : Scene Profiler} {xs : List Collection} {id : Nat}

theorem movedOn_of_collected {i : Symbol} (hle : s.shared.registry.size ≤ id)
    (hi : symbolIn s.shared.registry.size xs id = some i) :
    movedOn s s' xs id = id + (s'.shared.registry.size - s.shared.registry.size) :=
  if_pos ⟨hle, Registry.lt_size_of_get? ((get?_stack xs hle).trans hi)⟩

theorem movedOn_of_else (h : id < s.shared.registry.size ∨ (stack s.shared.registry xs).size ≤ id) :
    movedOn s s' xs id = id :=
  if_neg fun hin => h.elim (Nat.not_lt.mpr hin.1) (Nat.not_le.mpr hin.2)

end MovedOn

namespace Continued

variable {start : Nat} {v v' : Names} {xs : List Collection} {s s₁ s₂ : Scene Profiler}

/-- What a name stands for once files are collected: what the files declare, and what it stood for
before. -/
theorem find_eq (h : Continued v xs s s₁) (hxs : ∀ x ∈ xs, x.Whole) (g : Handle) :
    g.find (classTable s₁) (symbolsWith s xs) =
      (numberOf g s.shared.registry.size xs).or (g.find (classTable s) s.self.symbols) := by
  cases g with
  | ofClass name =>
    rw [h.classes]
    exact get?_updateAll_placed (g := .ofClass name) (fun _ _ => rfl) (fun _ => rfl) _ _ xs
      fun x hx => (hxs x hx).nodup_classes
  | ofSymbol name =>
    exact get?_updateAll_placed (g := .ofSymbol name) (fun _ _ => rfl) (fun _ => rfl) _ _ xs
      fun x hx => (hxs x hx).nodup_symbols

theorem contains_class (h : Continued v xs s s₁) (name : String) :
    (classTable s₁).contains name = ((classTable s).contains name ||
      (namesOf xs).classes name) := by
  rw [h.classes, contains_classes]

theorem size_le (h : Continued v xs s s₁) :
    (stack s.shared.registry xs).size ≤ s₁.shared.registry.size :=
  h.done.later.size_le

section First

variable (hxs : ∀ x ∈ xs, x.Whole) (h₁ : Continued v xs s s₁)
include hxs h₁

/-- What was collected under a name is found under it. -/
theorem find_of_number {g : Handle} {id : Nat}
    (hid : numberOf g s.shared.registry.size xs = some id) :
    g.find (classTable s₁) s₁.self.symbols = some id :=
  Handle.find_mono h₁.done.kept (by rw [h₁.find_eq hxs, hid]; rfl)

/-- What else is found is older or younger than what was collected. -/
theorem find_of_none (hs : Grown start s) {g : Handle} {id : Nat}
    (hnone : numberOf g s.shared.registry.size xs = none)
    (hid : g.find (classTable s₁) s₁.self.symbols = some id) :
    id < s.shared.registry.size ∨ (stack s.shared.registry xs).size ≤ id := by
  have hstart : g.find (classTable s₁) (symbolsWith s xs) = some id ∨
      (stack s.shared.registry xs).size ≤ id := by
    cases g with
    | ofClass name => exact .inl hid
    | ofSymbol name => exact (h₁.done.fresh name id hid).imp_right And.left
  refine hstart.imp_left fun hold => ?_
  rw [h₁.find_eq hxs, hnone, Option.none_or] at hold
  exact (hs.find_range hold).2

end First

/-- A symbol that was collected is found just where it was collected. -/
theorem find_iff_number (h : Continued v xs s s₁) (hxs : ∀ x ∈ xs, x.Whole) (hs : Grown start s)
    {g : Handle} {id : Nat} (hle : s.shared.registry.size ≤ id) :
    g.find (classTable s₁) (symbolsWith s xs) = some id ↔ numberOf g s.shared.registry.size xs =
      some id := by
  rw [h.find_eq hxs, Option.or_eq_some_iff]
  refine ⟨fun hid => hid.resolve_right fun ⟨_, hold⟩ => ?_, .inl⟩
  exact Nat.not_lt.mpr hle (hs.find_range hold).2

/-- The files are collected again under the same names, after all symbols that are there. -/
theorem number_again (h : Continued v xs s s₁) (g : Handle) :
    numberOf g s₁.shared.registry.size xs =
      (numberOf g s.shared.registry.size xs).map
      (· + (s₁.shared.registry.size - s.shared.registry.size)) := by
  have hle := Nat.le_trans (le_size_stack s.shared.registry xs) h.size_le
  rw [← numberOf_add, Nat.add_sub_of_le hle]

end Continued

theorem exists_of_mem_placed {r : Registry} {xs : List Collection} {y : Collection}
    (h : y ∈ placed r xs) :
    ∃ x ∈ xs, ∃ r', y = x.onto r' := by
  induction xs generalizing r with
  | nil => cases h
  | cons x xs ih =>
    rcases List.mem_cons.mp h with rfl | h
    · exact ⟨x, List.mem_cons_self, r, rfl⟩
    · obtain ⟨x', hx', hy⟩ := ih h
      exact ⟨x', List.mem_cons_of_mem _ hx', hy⟩

/-- Two profiles of the same files, one after the other. -/
structure Repeated (start : Nat) (v : Names) (xs : List Collection) (s s₁ s₂ : Scene Profiler) :
    Prop where
  steady : ∀ x ∈ xs, x.Steady
  first : Continued v xs s s₁
  second : Continued (v.after (performed v (xs.map Collection.script))) xs s₁ s₂
  grown : Grown start s
  grown₁ : Grown start s₁
  grown₂ : Grown start s₂
  nodup₁ : s₁.self.symbols.keys.Nodup
  nodup₂ : s₂.self.symbols.keys.Nodup
  declared : ∀ name, (classTable s).contains name = true → (namesOf xs).classes name = true
  own : ∀ x ∈ xs, ∀ name, x.after.symbols.contains name = true → v.symbols name = true

namespace Repeated

variable {start : Nat} {v : Names} {xs : List Collection} {s s₁ s₂ : Scene Profiler}
  (h : Repeated start v xs s s₁ s₂)
include h

theorem whole : ∀ x ∈ xs, x.Whole := fun x hx => (h.steady x hx).whole

/-- The same requests are granted. -/
theorem performed_eq : performed (v.after (performed v (xs.map Collection.script)))
    (xs.map Collection.script) =
    performed v (xs.map Collection.script) :=
  performed_again h.steady h.own

/-- What a name stands for when the files are collected again. -/
theorem find_again (g : Handle) : g.find (classTable s₂) (symbolsWith s₁ xs) =
    (g.find (classTable s₁) s₁.self.symbols).map (movedOn s s₁ xs) := by
  rw [h.second.find_eq h.whole, h.first.number_again]
  cases hid : numberOf g s.shared.registry.size xs with
  | some id =>
    obtain ⟨i, hi, -⟩ := symbolIn_numberOf h.whole hid
    rw [Continued.find_of_number h.whole h.first hid, Option.map_some, Option.map_some,
      movedOn_of_collected (le_numberOf hid) hi]
    rfl
  | none =>
    rw [Option.map_none, Option.none_or]
    cases hfind : g.find (classTable s₁) s₁.self.symbols with
    | none => rfl
    | some id =>
      rw [Option.map_some,
        movedOn_of_else (Continued.find_of_none h.whole h.first h.grown hid hfind)]

/-! ### Tables -/

theorem classes_eq : classTable s₂ = (classTable s₁).map (movedOn s s₁ xs) := by
  refine Table.ext_of_keys h.grown₂.nodup_classes ?_ fun name => ?_
  · rw [Table.keys_map, h.second.classes]
    refine Table.keys_updateAll_of_contains fun u hu name hname => ?_
    obtain ⟨y, hy, rfl⟩ := List.mem_map.mp hu
    obtain ⟨x, hx, r, rfl⟩ := exists_of_mem_placed hy
    have hin : (x.after.classes.shift r.size).contains name = true :=
      Table.contains_iff_mem_keys.mpr hname
    rw [Table.contains_shift] at hin
    rw [h.first.contains_class, classes_namesOf hx hin, Bool.or_true]
  · rw [Table.get?_map]
    exact h.find_again (.ofClass name)

theorem keys_symbolsWith : (symbolsWith s₁ xs).keys = s₁.self.symbols.keys := by
  refine Table.keys_updateAll_of_contains fun u hu name hname => ?_
  obtain ⟨y, hy, rfl⟩ := List.mem_map.mp hu
  obtain ⟨x, hx, r, rfl⟩ := exists_of_mem_placed hy
  have hin : (x.after.symbols.shift r.size).contains name = true :=
    Table.contains_iff_mem_keys.mpr hname
  rw [Table.contains_shift] at hin
  rw [h.first.known]
  exact (v.le_after _).symbols name (h.own x hx name hin)

/-- The second profile makes no import a symbol: all of them are symbols already. -/
theorem symbols_eq_with : s₂.self.symbols = symbolsWith s₁ xs := by
  obtain ⟨more, hmore⟩ := h.second.added
  have hkeys : s₂.self.symbols.keys = (symbolsWith s₁ xs).keys ++ more.map (·.1) := by
    unfold Table.keys
    rw [← hmore, List.map_append]
  have hnone : more = [] := by
    refine List.eq_nil_iff_forall_not_mem.mpr fun e he => ?_
    have hname : e.1 ∈ more.map (·.1) := List.mem_map_of_mem he
    have hcontains : s₂.self.symbols.contains e.1 = true := by
      rw [Table.contains_iff_mem_keys, hkeys]
      exact List.mem_append_right _ hname
    rw [h.second.known, h.performed_eq, Names.symbols_after] at hcontains
    have hold : (v.after (performed v (xs.map Collection.script))).symbols e.1 = true :=
      hcontains.elim id fun himport => (v.symbols_after _ _).mpr (.inr himport)
    rw [← h.first.known, Table.contains_iff_mem_keys, ← h.keys_symbolsWith] at hold
    exact (List.nodup_append.mp (hkeys ▸ h.nodup₂)).2.2 _ hold _ hname rfl
  rw [hnone, List.append_nil] at hmore
  exact congrArg Table.mk hmore.symm

theorem symbols_eq : s₂.self.symbols = s₁.self.symbols.map (movedOn s s₁ xs) := by
  refine Table.ext_of_keys h.nodup₂ ?_ fun name => ?_
  · rw [Table.keys_map, h.symbols_eq_with, h.keys_symbolsWith]
  · rw [Table.get?_map, h.symbols_eq_with]
    exact h.find_again (.ofSymbol name)

theorem numbering_eq : s₂.shared.numbering = s₁.shared.numbering := by
  rw [h.second.numbering, h.first.numbering, h.classes_eq, Table.keys_map]

theorem full_eq : s₂.self.full = s₁.self.full := by
  rw [h.second.full, h.first.full]
  exact Table.update_self h.grown.nodup_full _

/-! ### Symbols -/

/-- What a granted request adds something to was collected in the same profile. -/
theorem le_of_subject {q : Request} (hq : q ∈ performed v (xs.map Collection.script)) {g : Handle}
    (hg : q.subject? = some g) {id : SymbolId}
    (hid : g.find (classTable s₂) (symbolsWith s₁ xs) = some id) :
    s₁.shared.registry.size ≤ id := by
  rw [performed_eq_flatMap h.steady (.refl v) h.own] at hq
  obtain ⟨x, hx, hgranted⟩ := List.mem_flatMap.mp hq
  have hown := (h.steady x hx).isLocal.contains_subject (granted_subset v _ hgranted) hg
  have hnumber : (numberOf g s₁.shared.registry.size xs).isSome = true := by
    cases g with
    | ofSymbol name => exact numberOf_isSome.mpr ⟨x, hx, hown⟩
    | ofClass name =>
      -- A class that is known is declared in one of the files, though not always in the one that
      -- asks for it.
      have hknown : (classTable s₂).contains name = true := Table.contains_iff_exists.mpr ⟨id, hid⟩
      rw [h.second.contains_class, h.first.contains_class, Bool.or_assoc, Bool.or_self,
        Bool.or_eq_true] at hknown
      obtain ⟨y, hy, hclass⟩ := List.any_eq_true.mp (hknown.elim (h.declared name) fun hnew => hnew)
      exact numberOf_isSome.mpr ⟨y, hy, hclass⟩
  obtain ⟨id', hid'⟩ := Option.isSome_iff_exists.mp hnumber
  rw [h.second.find_eq h.whole, hid', Option.some_or, Option.some_inj] at hid
  exact hid ▸ le_numberOf hid'

theorem filterMap_eq_nil {f : Request → Option String} {id : Nat}
    (hlt : id < s₁.shared.registry.size)
    (hf : Adds (·.find (classTable s₂) (symbolsWith s₁ xs)) id f) :
    (performed v (xs.map Collection.script)).filterMap f = [] := by
  refine List.filterMap_eq_nil_iff.mpr fun q hq => ?_
  by_contra hsome
  obtain ⟨name, hadded⟩ := Option.ne_none_iff_exists'.mp hsome
  obtain ⟨g, hg, hfound⟩ := hf q name hadded
  exact Nat.not_lt.mpr (h.le_of_subject hq hg hfound) hlt

/-- The second profile leaves the symbols that were there as they were. -/
theorem get?_old {id : Nat} {i : Symbol} (hi : s₁.shared.registry.get? id = some i) :
    s₂.shared.registry.get? id = some i := by
  have hlt : id < s₁.shared.registry.size := Registry.lt_size_of_get? hi
  have hget := h.second.done.get? ((get?_stack_of_lt xs hlt).trans hi)
  rw [h.performed_eq, h.filterMap_eq_nil hlt (adds_super _ _ id),
    h.filterMap_eq_nil hlt (adds_dependency _ _ id), List.append_nil, List.append_nil] at hget
  exact hget

/-- What the first profile collected is collected again, and the same is added to it. -/
theorem get?_new {id : Nat} (hle : s.shared.registry.size ≤ id) {i : Symbol}
    (hi : symbolIn s.shared.registry.size xs id = some i) :
    ∃ j, s₁.shared.registry.get? id = some j ∧ j.methods = i.methods ∧
      s₂.shared.registry.get? (id + (s₁.shared.registry.size - s.shared.registry.size)) =
        some (j.shift (s₁.shared.registry.size - s.shared.registry.size)) := by
  have hsize := Nat.le_trans (le_size_stack s.shared.registry xs) h.first.size_le
  have hplace := Nat.add_sub_of_le hsize
  generalize hk : s₁.shared.registry.size - s.shared.registry.size = k at hplace ⊢
  have hnumber (g : Handle) := h.first.number_again g
  rw [hk] at hnumber
  have hle' : s₁.shared.registry.size ≤ id + k := hplace ▸ Nat.add_le_add_right hle k
  have hstack : (stack s₁.shared.registry xs).get? (id + k) = some (i.shift k) := by
    rw [get?_stack xs hle', ← hplace, symbolIn_add hle, hi]
    rfl
  have hfind (g : Handle) : g.find (classTable s₂) (symbolsWith s₁ xs) = some (id + k) ↔
      g.find (classTable s₁) (symbolsWith s xs) = some id := by
    rw [h.second.find_iff_number h.whole h.grown₁ hle', h.first.find_iff_number h.whole h.grown hle,
      hnumber]
    simp
  refine ⟨_, h.first.done.get? ((get?_stack xs hle).trans hi), rfl, ?_⟩
  have hget := h.second.done.get? hstack
  rw [h.performed_eq, dependency?_congr hfind, super?_congr hfind] at hget
  exact hget

/-! ### All of it -/

/-- All symbols of the profiler are carried on to the second profile. -/
theorem relabels : Relabels (movedOn s s₁ xs)
    (fun id => start ≤ id ∧ id < s₁.shared.registry.size) s₁.shared.registry
    s₂.shared.registry := by
  rintro id ⟨hstart, hlt⟩
  by_cases hin : s.shared.registry.size ≤ id ∧ id < (stack s.shared.registry xs).size
  · -- A symbol that was collected: its methods were collected with it.
    obtain ⟨hle, hltstack⟩ := hin
    obtain ⟨i, hi⟩ := Registry.exists_get? hltstack
    rw [get?_stack xs hle] at hi
    obtain ⟨j, hj, hmethods, hj'⟩ := h.get?_new hle hi
    have hmethod {m : Nat} (hm : m ∈ j.methods.values) : id < m ∧ m < s₁.shared.registry.size ∧
        movedOn s s₁ xs m = m + (s₁.shared.registry.size - s.shared.registry.size) := by
      obtain ⟨hyounger, i', hi'⟩ := symbolIn_methods h.whole hle hi (hmethods ▸ hm)
      have hlem : s.shared.registry.size ≤ m := Nat.le_trans hle (Nat.le_of_lt hyounger)
      have hltm := Registry.lt_size_of_get? ((get?_stack xs hlem).trans hi')
      exact ⟨hyounger, Nat.lt_of_lt_of_le hltm h.first.size_le, movedOn_of_collected hlem hi'⟩
    refine ⟨j, hj, ?_, fun m hm => ?_⟩
    · rw [movedOn_of_collected hle hi, Symbol.move_eq_shift fun m hm => (hmethod hm).2.2]
      exact hj'
    · obtain ⟨hyounger, hltm, hmoved⟩ := hmethod hm
      rw [movedOn_of_collected hle hi, hmoved]
      exact ⟨⟨Nat.le_trans hstart (Nat.le_of_lt hyounger), hltm⟩, hyounger,
        Nat.add_lt_add_right hyounger _⟩
  · -- Any other symbol has stayed, and so have its methods.
    have helse : id < s.shared.registry.size ∨ (stack s.shared.registry xs).size ≤ id := by omega
    obtain ⟨i, hi⟩ := Registry.exists_get? hlt
    have hmethod {m : Nat} (hm : m ∈ i.methods.values) : id < m ∧ m < s₁.shared.registry.size ∧
        movedOn s s₁ xs m = m := by
      obtain ⟨hyounger, hltm⟩ :=
        h.grown₁.rooted.methods id hstart m ((Registry.methods_of_get? hi).symm ▸ hm)
      refine ⟨hyounger, hltm, movedOn_of_else (helse.imp (fun hold => ?_) fun hlate => ?_)⟩
      · obtain ⟨i₀, hi₀⟩ := Registry.exists_get? hold
        obtain ⟨i', hi', hsame⟩ := h.first.done.later.methods ((get?_stack_of_lt xs hold).trans hi₀)
        cases hi.symm.trans hi'
        rw [hsame, ← Registry.methods_of_get? hi₀] at hm
        exact (h.grown.rooted.methods id hstart m hm).2
      · exact Nat.le_trans hlate (Nat.le_of_lt hyounger)
    have hmove : i.move (movedOn s s₁ xs) = i :=
      (Symbol.move_congr fun m hm => (hmethod hm).2.2).trans i.move_id
    rw [movedOn_of_else helse]
    refine ⟨i, hi, by rw [hmove]; exact h.get?_old hi, fun m hm => ?_⟩
    obtain ⟨hyounger, hltm, hmoved⟩ := hmethod hm
    rw [hmoved]
    exact ⟨⟨Nat.le_trans hstart (Nat.le_of_lt hyounger), hltm⟩, hyounger, hyounger⟩

theorem matrix_eq : s₂.self.matrix = s₁.self.matrix := by
  obtain ⟨m₁, hm₁, hsquare₁⟩ := h.first.square
  obtain ⟨m₂, hm₂, hsquare₂⟩ := h.second.square
  have hsize : (classTable s₁).size = s₁.shared.numbering.names.length := by
    rw [h.first.numbering]
    exact (List.length_map _).symm
  have hnodup : s₁.shared.numbering.names.Nodup := by
    rw [h.first.numbering]
    exact h.grown₁.nodup_classes
  rw [h.classes_eq, Table.size_map, hsize] at hsquare₂
  rw [hsize] at hsquare₁
  rw [hm₁, hm₂]
  refine congrArg some (hsquare₂.ext_cell hnodup hsquare₁ fun p q => ?_)
  have htally : tally (classTable s₂) p q = tally (classTable s₁) p q := by
    funext es
    unfold tally
    rw [h.classes_eq, Table.contains_map, Table.contains_map]
  have hfirst := h.first.done.counts p q
  have hsecond := h.second.done.counts p q
  rw [h.performed_eq, h.numbering_eq, htally, h.classes_eq, Table.size_map] at hsecond
  rw [← hm₁, ← hm₂]
  exact hsecond.trans hfirst.symm

/-- **A second profile says what the first one said.** Only numbers are others. -/
theorem renumbered : Renumbered (movedOn s s₁ xs)
    (fun id => start ≤ id ∧ id < s₁.shared.registry.size) s₁ s₂ where
  relabels := h.relabels
  mem_classes := h.grown₁.rooted.classes
  mem_symbols := h.grown₁.rooted.symbols
  classes := h.classes_eq
  symbols := h.symbols_eq
  full := h.full_eq
  matrix := h.matrix_eq

end Repeated

namespace Profiler

variable {parse : Parser} {fs : Files} {files : List String}

/-- The names that are known when collections are added to what was known. -/
def namesWith (s : Scene Profiler) (xs : List Collection)
    (h : ∀ name, (classTable s).contains name = true → s.self.symbols.contains name = true) :
    Names where
  classes name := (classTable s).contains name || (namesOf xs).classes name
  symbols name := s.self.symbols.contains name || (namesOf xs).symbols name
  symbol_of_class name hname := by
    rw [Bool.or_eq_true] at hname ⊢
    exact hname.imp (h name) ((namesOf xs).symbol_of_class name)

/-- A profile of files that can all be collected comes to its end, and so does the next one, which
says the same, also if the matrix was changed in between. -/
theorem profile_again {start : Nat} {s : Scene Profiler} (hgrown : Grown start s)
    (hclosed : Closed s.shared.registry s.self.symbols) (hfamiliar : Familiar parse fs files s)
    (hcollects : ∀ file ∈ files, collects parse fs file = true)
    (hsteady : ∀ x ∈ files.filterMap (alone parse fs), x.Steady) :
    ∃ s₁, (profile parse fs false).run.run s = (.ok (), s₁) ∧
      ∀ matrix, Sound { s₁ with self := { s₁.self with matrix } } → ∃ s₂ φ P,
        (profile parse fs false).run.run { s₁ with self := { s₁.self with matrix } } =
          (.ok (), s₂) ∧
        Renumbered φ P s₁ s₂ ∧ s₂.shared.numbering = s₁.shared.numbering := by
  rw [← hfamiliar.files_eq] at hcollects hsteady
  generalize hxs : s.self.files.filterMap (alone parse fs) = xs at hsteady
  obtain ⟨s₁, hrun₁, hs₁, -⟩ := profile_continued (v := namesWith s xs hgrown.symbol_of_class) hxs
    hcollects hgrown.sound
    hclosed (fun _ => rfl) fun _ => rfl
  refine ⟨s₁, hrun₁, fun matrix hsound => ?_⟩
  have hgrown₁ := ((lasting_grown start).keeps_profile false).of_run hgrown hrun₁
  have hclosed₁ := (lasting_closed.keeps_profile false).of_run hclosed hrun₁
  have hclasses (name : String) : (namesWith s xs hgrown.symbol_of_class).classes name =
      ((classTable s₁).contains name || (namesOf xs).classes name) := by
    rw [hs₁.contains_class, Bool.or_assoc, Bool.or_self]
    rfl
  have hsymbols (name : String) (hname : (namesOf xs).symbols name = true) :
      (namesWith s xs hgrown.symbol_of_class).symbols name = true := by
    show (s.self.symbols.contains name || (namesOf xs).symbols name) = true
    rw [hname, Bool.or_true]
  generalize namesWith s xs hgrown.symbol_of_class = v at hs₁ hclasses hsymbols
  have hafter (name : String) : (v.after (performed v (xs.map Collection.script))).symbols name =
      (s₁.self.symbols.contains name || (namesOf xs).symbols name) := by
    rw [← hs₁.known, Bool.eq_iff_iff, Bool.or_eq_true]
    refine ⟨.inl, fun hname => hname.elim id fun hnew => ?_⟩
    rw [hs₁.known]
    exact (v.le_after _).symbols name (hsymbols name hnew)
  obtain ⟨s₂, hrun₂, hs₂, -⟩ := profile_continued (s := { s₁ with self := { s₁.self with matrix } })
    (v := v.after (performed v (xs.map Collection.script))) (hs₁.files ▸ hxs)
      (hs₁.files ▸ hcollects) hsound hclosed₁
    (fun name => by rw [Names.classes_after]; exact hclasses name) hafter
  have hgrown₂ := ((lasting_grown start).keeps_profile false).of_run
    (s := { s₁ with self := { s₁.self with matrix } })
    ⟨hsound, hgrown₁.nodup_classes, hgrown₁.nodup_full, hgrown₁.symbol_of_class,
      hgrown₁.rooted.start_le, hgrown₁.rooted.classes, hgrown₁.rooted.symbols,
      hgrown₁.rooted.methods⟩ hrun₂
  have hclosed₂ := (lasting_closed.keeps_profile false).of_run
    (s := { s₁ with self := { s₁.self with matrix } })
    hclosed₁ hrun₂
  have hrepeated : Repeated start v xs s s₁ s₂ :=
    ⟨hsteady, hs₁, ⟨hs₂.files, hs₂.classes, hs₂.full, hs₂.numbering, hs₂.done, hs₂.added,
      hs₂.square, hs₂.known⟩, hgrown, hgrown₁, hgrown₂, hclosed₁.keys, hclosed₂.keys,
      hxs ▸ hfamiliar.files_eq ▸ hfamiliar.classes, fun x hx name hname =>
      hsymbols name (symbols_namesOf hx hname)⟩
  exact ⟨s₂, _, _, hrun₂, hrepeated.renumbered, hrepeated.numbering_eq⟩

/-- A profile that lets classes inherit does so at its end. -/
theorem run_profile_inherited {s s' : Scene Profiler}
    (h : (profile parse fs false).run.run s = (.ok (), s')) :
    (profile parse fs true).run.run s = (inheriting inheritAll).run.run s' := by
  unfold profile at h ⊢
  obtain ⟨⟨⟩, s₁, hcollect, h⟩ := bind_eq_ok.mp h
  obtain ⟨⟨⟩, s₂, hanalyze, h⟩ := bind_eq_ok.mp h
  cases h
  simp only [run_bind, hcollect, hanalyze]
  rfl

/-- **Profiles can be repeated.** Take files whose imports are of dotted names, and a profiler that
has read these files only, whatever it was asked to do with them. If a profile comes to its end,
with or without inheriting, then a profile after it comes to its end as well and says the same: the
same classes and symbols in the same order, with the same records, the same simple names of each
file, and the same matrix. -/
theorem profile_repeatable (hparse : parse = Java.parse ∨ ∀ text, Regular (parse text).tree)
    (files : List String)
    (shared : Shared) (calls : List Call) (hcalls : ∀ call ∈ calls, call.Reads fs)
    (inherited : Bool)
    (hdotted : ∀ x ∈ files.filterMap (alone parse fs), ∀ name ∈ importNames x.tree, Dotted name)
    {s : Scene Profiler}
    (h : (profile parse fs inherited).run.run (after parse calls (opened files shared)) =
      (.ok (), s)) :
    ∃ s', (profile parse fs inherited).run.run s = (.ok (), s') ∧ Same s s' := by
  have hgrown : Grown shared.registry.size (after parse calls (opened files shared)) :=
    (lasting_grown _).after calls (grown_opened files shared)
  have hclosed : Closed (after parse calls (opened files shared)).shared.registry
      (after parse calls (opened files shared)).self.symbols :=
        lasting_closed.after calls (closed_opened files shared)
  have hfamiliar := (familiar_opened parse fs files shared).after hcalls
  have hsound := (lasting_sound.keeps_profile inherited).of_run hgrown.sound h
  obtain ⟨s₁, hrun, hagain⟩ := profile_again hgrown hclosed hfamiliar
    (hfamiliar.collects_of_profile h)
    fun x hx => steady_alone hx hparse (hdotted x hx)
  cases inherited with
  | false =>
    cases hrun.symm.trans h
    obtain ⟨s₂, φ, P, hrun₂, hrenumbered, -⟩ := hagain s.self.matrix hsound
    exact ⟨s₂, hrun₂, hrenumbered.same⟩
  | true =>
    rw [run_profile_inherited hrun, run_inheriting] at h
    generalize hout : (inheritAll s₁.shared.registry (classTable s₁) s₁.shared.numbering).run.run
      s₁.self.matrix = out at h
    obtain ⟨result, matrix⟩ := out
    cases h
    obtain ⟨s₂, φ, P, hrun₂, hrenumbered, hnumbering⟩ := hagain matrix hsound
    refine ⟨_, ?_, (hrenumbered.withMatrix matrix).same⟩
    rw [run_profile_inherited hrun₂, run_inheriting, hnumbering, hrenumbered.matrix,
      hrenumbered.classes, hrenumbered.relabels.inheritAll_eq hrenumbered.mem_classes, hout]

/-- Two files: a class with a field of an imported class and one of an unknown class, and a class
that extends it. -/
def heirTrees : List (String × Java.ParseTree) :=
  [("A", branch .compilationUnit [importOf "q" "B",
    classNamed (named "A") [fieldOf "B", fieldOf "X"]]),
      ("C", branch .compilationUnit [branch .classDeclaration [leaf .kwClass "class", named "C",
        leaf .kwExtends "extends", branch .typeType [named "A"], branch .classBody [fieldOf "A"]]])]

def heirFiles : Files := ⟨[(["A.java"], .text "A"), (["C.java"], .text "C")]⟩

/-- The profiler has made a profile before, and has let a class inherit. -/
def heirScene : Scene Profiler :=
  after (parserOf heirTrees) [.profile heirFiles false, .inherit 1] (opened ["A.java", "C.java"] {})

/-- What the next profile leads to. -/
def heirProfile : Except Fault Unit × Scene Profiler :=
  (profile (parserOf heirTrees) heirFiles true).run.run heirScene

/-- The import is a symbol before the files are read again, and the second profile says what the
first one said: the extending class interacts with the other one twice, by its supertype and by its
field. -/
theorem heir_repeats :
    (∀ x ∈ ["A.java", "C.java"].filterMap (alone (parserOf heirTrees) heirFiles),
      ∀ name ∈ importNames x.tree, Dotted name) ∧
    heirProfile.1.toBool = true ∧ heirScene.self.symbols.contains "q.B" = true ∧
    ∃ s', (profile (parserOf heirTrees) heirFiles true).run.run heirProfile.2 = (.ok (), s') ∧
      Same heirProfile.2 s' ∧
      s'.self.matrix = some ⟨#[#[0, 0], #[2, 0]]⟩ := by
  have hregular : ∀ t ∈ heirTrees, Regular t.2 := by decide +kernel
  have hdotted : ∀ x ∈ ["A.java", "C.java"].filterMap (alone (parserOf heirTrees) heirFiles),
      ∀ name ∈ importNames x.tree, Dotted name := by decide +kernel
  have hend : heirProfile.1.toBool = true := by decide +kernel
  have hknown : heirScene.self.symbols.contains "q.B" = true := by decide +kernel
  have hmatrix : heirProfile.2.self.matrix = some ⟨#[#[0, 0], #[2, 0]]⟩ := by decide +kernel
  obtain ⟨s', hrun, hsame⟩ := profile_repeatable (.inr (forall_parserOf (by decide) hregular))
    ["A.java", "C.java"] {}
    [.profile heirFiles false, .inherit 1] (by simp [Call.Reads]) true hdotted
      (eq_ok_of_toBool hend)
  exact ⟨hdotted, hend, hknown, s', hrun, hsame, hsame.matrix.trans hmatrix⟩

end Profiler

end Coupling.Project
