import Coupling.Proofs.Closers
import Coupling.Proofs.TwoReadings

/-!
# Recorded code and recorded lines

A symbol is recorded with the code of its declaration and with the lines of its first and its last
token. In a text that is parsed without complaints these fit together: the code is the text from the
first token through the last, whatever stands between them, and it has as many line feeds as the
lines are apart. A method lies inside of what it is recorded for, for it is declared below it
(`exists_around`).
-/

namespace Coupling.Project

open Java (ParseTree NodeInfo Token)
open Analyze (Cut)

/-! ## Declarations inside of others -/

/-- A node is one of a declaration of a kind. -/
def DeclaresA (kind : SymbolKind) (info : NodeInfo) : Prop :=
  Role.ofForm info.form = .type kind ∨ Role.ofForm info.form = .method ∧ kind = .method ∨
    Role.ofForm info.form = .import ∧ kind = .import

theorem DeclaresA.closes {kind : SymbolKind} {info : NodeInfo} (h : DeclaresA kind info) :
    info.form.ruleName.closes = true := by
  unfold DeclaresA Role.ofForm at h
  split at h <;> simp_all [Java.Form.ruleName, Java.RuleName.closes]

mutual

/-- Declarations are nodes of the tree, and each is declared where the tree is or below another
one. -/
theorem exists_around : ∀ (t : ParseTree) {scope : Option SymbolId} {next : Nat} {d : Declaration},
    d ∈ declarations (outline scope next t) → (d.node ∈ t.nodes ∧ DeclaresA d.kind d.info) ∧
      (d.scope = scope ∨ ∃ e ∈ declarations (outline scope next t), d.scope = some e.id ∧
        d.node ∈ e.node.nodes)
  | .token _, _, _, _, hd | .skipped _, _, _, _, hd | .missing _, _, _, _, hd => by cases hd
  | .node info cs, scope, next, d, hd => by
    have hbelow (kind : SymbolKind) (hkind : DeclaresA kind info)
        (hd : d ∈ ⟨kind, info, cs, scope, next⟩ ::
          declarations (outlineOf (some next) (next + 1) cs)) :
        (d.node ∈ (ParseTree.node info cs).nodes ∧ DeclaresA d.kind d.info) ∧ (d.scope = scope ∨
          ∃ e ∈ (⟨kind, info, cs, scope, next⟩ : Declaration) :: declarations (outlineOf (some next)
            (next + 1) cs),
            d.scope = some e.id ∧ d.node ∈ e.node.nodes) := by
      rcases List.mem_cons.mp hd with rfl | hd
      · exact ⟨⟨List.mem_cons_self, hkind⟩, .inl rfl⟩
      · obtain ⟨⟨hnode, hform⟩, haround⟩ := exists_aroundOf cs hd
        refine ⟨⟨List.mem_cons_of_mem _ hnode, hform⟩, .inr ?_⟩
        rcases haround with hscope | ⟨e, he, hscope, hin⟩
        · exact ⟨_, List.mem_cons_self, hscope, List.mem_cons_of_mem _ hnode⟩
        · exact ⟨e, List.mem_cons_of_mem _ he, hscope, hin⟩
    have hinside (hd : d ∈ declarations (outlineOf scope next cs)) := exists_aroundOf cs hd
    rw [outline] at hd ⊢
    cases hrole : Role.ofForm info.form with
    | package | «import» =>
      simp only [hrole] at hd
      cases hd
    | type kind =>
      simp only [hrole] at hd ⊢
      exact hbelow kind (.inl hrole) hd
    | method =>
      simp only [hrole] at hd ⊢
      exact hbelow .method (.inr (.inl ⟨hrole, rfl⟩)) hd
    | field | other =>
      simp only [hrole] at hd ⊢
      exact (hinside hd).imp_left (And.imp_left (List.mem_cons_of_mem _))

theorem exists_aroundOf : ∀ (ts : List ParseTree) {scope : Option SymbolId} {next : Nat}
    {d : Declaration},
    d ∈ declarations (outlineOf scope next ts) →
      (d.node ∈ ParseTree.nodesOf ts ∧ DeclaresA d.kind d.info) ∧
      (d.scope = scope ∨ ∃ e ∈ declarations (outlineOf scope next ts), d.scope = some e.id ∧
        d.node ∈ e.node.nodes)
  | [], _, _, _, hd => by cases hd
  | t :: ts, scope, next, d, hd => by
    rw [outlineOf, declarations_append] at hd ⊢
    rcases List.mem_append.mp hd with hd | hd
    · obtain ⟨hnode, haround⟩ := exists_around t hd
      refine ⟨hnode.imp_left (List.mem_append_left _), haround.imp_right ?_⟩
      rintro ⟨e, he, hin⟩
      exact ⟨e, List.mem_append_left _ he, hin⟩
    · obtain ⟨hnode, haround⟩ := exists_aroundOf ts hd
      refine ⟨hnode.imp_left (List.mem_append_right _), haround.imp_right ?_⟩
      rintro ⟨e, he, hin⟩
      exact ⟨e, List.mem_append_right _ he, hin⟩

end

mutual

theorem leaves_subset : ∀ {t n : ParseTree}, n ∈ t.nodes → n.leaves ⊆ t.leaves
  | .node _ cs, n, h => by
    rcases List.mem_cons.mp h with rfl | h
    · exact List.Subset.refl _
    · exact leavesOf_subset h

theorem leavesOf_subset : ∀ {ts : List ParseTree} {n : ParseTree}, n ∈ ParseTree.nodesOf ts →
    n.leaves ⊆ ParseTree.leavesOf ts
  | _ :: _, n, h => by
    rcases List.mem_append.mp h with h | h
    · exact List.subset_append_of_subset_left _ (leaves_subset h)
    · exact List.subset_append_of_subset_right _ (leavesOf_subset h)

end

/-! ## What a declaration is recorded with -/

/-- A symbol is recorded with the code of a node from its first through its last token, and with
their lines. -/
structure Symbol.RecordedFrom (text : String) (n : ParseTree) (s : Symbol) : Prop where
  slice : ∃ first last before after, n.leaves.head? = some (.token first) ∧
    n.leaves.getLast? = some (.token last) ∧
    text.toList = before ++ (s.code.toList ++ after) ∧ before.length = first.start.offset ∧
    before.length + s.code.toList.length = last.stop ∧ s.startLine = first.start.line ∧
    s.stopLine = last.start.line
  lines : s.startLine + s.code.toList.count '\n' = s.stopLine

theorem infix_of_bounds {α : Type} (l : List α) {a b c d : Nat} (hac : a ≤ c) (hdb : d ≤ b) :
    (l.take d).drop c <:+: (l.take b).drop a := by
  have hprefix : (l.take d).drop c <+: (l.take b).drop c := by
    rw [show l.take d = (l.take b).take d by rw [List.take_take, Nat.min_eq_left hdb],
      List.drop_take]
    exact List.take_prefix _ _
  have hsuffix : (l.take b).drop c <:+ (l.take b).drop a := by
    rw [← Nat.add_sub_of_le hac, ← List.drop_drop]
    exact List.drop_suffix _ _
  exact hprefix.isInfix.trans hsuffix.isInfix

section Clean

variable {text : String} (hclean : (Java.parse text).complaints = []) {info : NodeInfo}
  {cs : List ParseTree} {s : Symbol}
include hclean

variable (hn : .node info cs ∈ (Java.parse text).tree.nodes)
  (hcloses : info.form.ruleName.closes = true)
include hn hcloses

/-- What is recorded of a declaration. -/
theorem recordedFrom_of_cut (hcut : Cut text info s) : s.RecordedFrom text (.node info cs) := by
  obtain ⟨last, hlast, hstart, hstop, hcode⟩ := hcut
  obtain ⟨last', hlast', hreaches⟩ := Java.parse_reaches hclean hn hcloses
  obtain rfl : last = last' := Option.some.inj (hlast.symm.trans hlast')
  have hchars : s.code.toList = (text.toList.take last.stop).drop info.start.start.offset := by
    rw [hcode, codeOf, String.toList_ofList]
  obtain ⟨hfirst, hstands⟩ := hreaches.stands
  obtain ⟨w, -, hlength, -⟩ := hstands.lexeme
  obtain ⟨-, hle, -⟩ := hreaches.within _ (List.mem_of_mem_head? hreaches.head)
  have hle' : info.start.start.offset ≤ last.stop := Nat.le_trans hle (Nat.le_add_right _ _)
  refine ⟨⟨info.start, last, text.toList.take info.start.start.offset, text.toList.drop last.stop,
    hreaches.head, hreaches.tail, ?_, ?_, ?_, hstart, hstop⟩, ?_⟩
  · have htake : text.toList.take info.start.start.offset =
        (text.toList.take last.stop).take info.start.start.offset := by
      rw [List.take_take, Nat.min_eq_left hle']
    rw [hchars, htake, ← List.append_assoc, List.take_append_drop, List.take_append_drop]
  · rw [List.length_take, Nat.min_eq_left (Nat.le_trans hle' hlength)]
  · rw [hchars, List.length_drop, List.length_take, List.length_take]
    omega
  · rw [hchars, hstart, hstop]
    exact Java.lines_between hfirst hstands hle hreaches.closer

/-- What is recorded of a declaration inside of another one. -/
theorem inside_of_cut {info' : NodeInfo} {cs' : List ParseTree} {m : Symbol}
    (hn' : .node info' cs' ∈ (Java.parse text).tree.nodes)
    (hcloses' : info'.form.ruleName.closes = true)
    (hin : .node info' cs' ∈ (ParseTree.node info cs).nodes) (hcut : Cut text info s)
    (hcut' : Cut text info' m) :
    m.code.toList <:+: s.code.toList ∧ s.startLine ≤ m.startLine ∧ m.stopLine ≤ s.stopLine := by
  obtain ⟨last, hlast, hstart, hstop, hcode⟩ := hcut
  obtain ⟨_, hlast', hreaches⟩ := Java.parse_reaches hclean hn hcloses
  cases hlast.symm.trans hlast'
  obtain ⟨last', hlast', hstart', hstop', hcode'⟩ := hcut'
  obtain ⟨_, hsame, hreaches'⟩ := Java.parse_reaches hclean hn' hcloses'
  cases hlast'.symm.trans hsame
  have hfirst := hreaches.within _ (leaves_subset hin (List.mem_of_mem_head? hreaches'.head))
  have hend := hreaches.within _ (leaves_subset hin (List.mem_of_mem_getLast? hreaches'.tail))
  rw [hcode, hcode', codeOf, codeOf, String.toList_ofList, String.toList_ofList, hstart, hstart',
    hstop, hstop']
  exact ⟨infix_of_bounds _ hfirst.1 hend.2.2,
    Java.line_mono hreaches.stands.1 hreaches'.stands.1 hfirst.1,
    Java.line_mono hreaches'.stands.2 hreaches.stands.2 hend.2.1⟩

end Clean

/-! ## Collections -/

section Collection

variable {registry : Registry} {file source : String} {c c' : Collected}

theorem Declaration.cut_symbol {d : Declaration} {full : Table String} {package : String}
    {outer : Option String}
    {s : Symbol} (h : d.symbol file source full package outer = .ok s) :
    Cut source d.info s ∧ s.kind = d.kind := by
  by_cases hkind : d.kind = .method
  · obtain ⟨parts, params, last, type, -, -, hstop, -, -, rfl⟩ :=
      (Declaration.symbol_method_eq_ok hkind).mp h
    exact ⟨⟨last, hstop, rfl, rfl, rfl⟩, hkind.symm⟩
  · obtain ⟨n, last, -, hstop, rfl⟩ := (Declaration.symbol_type_eq_ok hkind).mp h
    exact ⟨⟨last, hstop, rfl, rfl, rfl⟩, rfl⟩

/-- Each declaration that is taken is recorded with its own code and lines. -/
theorem cut_of_takeAll {start : Nat} {items : List Item}
    (hordered : Ordered start c.registry.size items)
    (h : (items.forM (Collect.take file source)).run c = .ok ((), c')) :
    ∀ d ∈ declarations items, ∃ s, c'.registry.get? d.id = some s ∧ Cut source d.info s ∧
    s.kind = d.kind := by
  induction items generalizing c with
  | nil => exact fun d hd => by cases hd
  | cons item items ih =>
    obtain ⟨c₁, h₁, h₂⟩ := Collect.takeAll_cons_eq_ok h
    cases item with
    | package t =>
      obtain ⟨name, rfl⟩ := Collect.take_package h₁
      refine ih ?_ h₂
      exact hordered
    | «import» t =>
      rw [Collect.take_import h₁] at h₂
      refine ih ?_ h₂
      exact hordered
    | declaration d =>
      obtain ⟨s, hs, rfl⟩ := Collect.take_declaration_eq_ok h₁
      have hordered' : Ordered start (c.declare d s).registry.size items := by
        rw [Collect.size_declare]
        exact hordered.2.2
      refine List.forall_mem_cons.mpr ⟨?_, ih hordered' h₂⟩
      obtain ⟨o, ho, hbare⟩ := get?_declare_bare c d s (Registry.get?_add_self c.registry s)
      obtain ⟨o', ho', hbare'⟩ := (pass_of_takeAll file source hordered' h₂).kept ho
      have hcut := Declaration.cut_symbol hs
      change Cut source d.info s.bare ∧ s.bare.kind = d.kind at hcut
      rw [← hbare, ← hbare'] at hcut
      exact ⟨o', hordered.1.symm ▸ ho', hcut⟩

/-- Each symbol of a collection is that of a declaration, and each of its methods that of a
declaration inside. -/
theorem collect_cut {tree : ParseTree} (h : collect registry file source tree = .ok c)
    {id : SymbolId} {s : Symbol} (hid : registry.size ≤ id) (hs : c.registry.get? id = some s) :
    ∃ info cs, .node info cs ∈ tree.nodes ∧ DeclaresA s.kind info ∧ Cut source info s ∧
      ∀ name m, s.methods.get? name = some m → ∃ info' cs' i, .node info' cs' ∈ tree.nodes ∧
        DeclaresA .method info' ∧
        .node info' cs' ∈ (ParseTree.node info cs).nodes ∧ c.registry.get? m = some i ∧
        Cut source info' i := by
  have htaken := collect_takeAll h
  have hordered := outlines_ordered registry tree
  have haround {d : Declaration}
      (hd : d ∈ declarations (firstOutline registry tree ++ secondOutline registry tree)) :
      (d.node ∈ tree.nodes ∧ DeclaresA d.kind d.info) ∧ (d.scope = none ∨
        ∃ e ∈ declarations (firstOutline registry tree ++ secondOutline registry tree),
          d.scope = some e.id ∧ d.node ∈ e.node.nodes) := by
    rw [declarations_append] at hd ⊢
    rcases List.mem_append.mp hd with hd | hd
    · refine (exists_around tree hd).imp_right (Or.imp_right ?_)
      rintro ⟨e, he, hin⟩
      exact ⟨e, List.mem_append_left _ he, hin⟩
    · refine (exists_around tree hd).imp_right (Or.imp_right ?_)
      rintro ⟨e, he, hin⟩
      exact ⟨e, List.mem_append_right _ he, hin⟩
  have hlt := Registry.lt_size_of_get? hs
  rw [Collect.size_takeAll htaken] at hlt
  obtain ⟨d, hd, rfl⟩ := hordered.exists_of_id hid hlt
  obtain ⟨s', hs', hcut, hkind⟩ := cut_of_takeAll hordered htaken d hd
  cases hs.symm.trans hs'
  obtain ⟨⟨hnode, hdeclares⟩, -⟩ := haround hd
  refine ⟨d.info, d.parts, hnode, hkind ▸ hdeclares, hcut, fun name m hm => ?_⟩
  rw [← Registry.methods_of_get? hs] at hm
  obtain ⟨e, he, hkind', hscope, rfl⟩ := (collect_pass h).declared_of_method hid
    (Table.mem_values_of_get? hm)
  obtain ⟨⟨hnode', hdeclares'⟩, houter⟩ := haround he
  obtain ⟨i, hi, hcut', -⟩ := cut_of_takeAll hordered htaken e he
  rcases houter with hnone | ⟨f, hf, hscope', hin⟩
  · cases hscope.symm.trans hnone
  · -- The symbol is that of the declaration around the method.
    obtain rfl := hordered.eq_of_id hf hd (Option.some.inj (hscope'.symm.trans hscope))
    exact ⟨e.info, e.parts, i, hnode', hkind' ▸ hdeclares', hin, hi, hcut'⟩

end Collection

/-! ## Analyses -/

theorem forall_change {r : Registry} {k i : Nat} {f : Symbol → Symbol} {Q : Symbol → Prop}
    (h : ∀ id s, k ≤ id → r.get? id = some s → Q s) (hf : ∀ s, Q s → Q (f s)) :
    ∀ id s, k ≤ id → (r.change i f).get? id = some s → Q s := by
  intro id s hk hs
  rw [Registry.get?_change] at hs
  split at hs
  · obtain ⟨s₀, hs₀, rfl⟩ := Option.map_eq_some_iff.mp hs
    exact hf s₀ (h id s₀ hk hs₀)
  · exact h id s hk hs

/-- What a reading of a tree adds are imports, each recorded with its own code and lines. -/
theorem analyze_cut {c : Setting} {tree : ParseTree} {a a' : Analysis} {result : Except Fault Unit}
    (h : (Analyze.visit c {} tree).run.run a = (result, a')) {id : SymbolId} {s : Symbol}
    (hid : a.registry.size ≤ id)
    (hs : a'.registry.get? id = some s) : s.kind = .import ∧ s.methods = ∅ ∧
      ∃ info cs, .node info cs ∈ tree.nodes ∧ DeclaresA .import info ∧ Cut c.source info s := by
  let Q (s : Symbol) : Prop := s.kind = .import ∧ s.methods = ∅ ∧
    ∃ info cs, .node info cs ∈ tree.nodes ∧ DeclaresA .import info ∧ Cut c.source info s
  have hstable : Analyze.StableInside c fun b => ∀ id s, a.registry.size ≤ id →
      b.registry.get? id = some s → Q s :=
    ⟨fun b _ _ hb _ _ => forall_change hb fun _ hs => hs, fun b _ _ hb =>
      forall_change hb fun _ hs => hs, fun _ _ _ _ hb _ => hb⟩
  have hkeeps := Analyze.visit_keeps_inside hstable {} tree (fun info cs hn hrole b hb => by
    rcases Analyze.run_addImport_cases c info (.node info cs) b
      with heq | ⟨i, ⟨hi, hcut⟩, -, -, heq⟩
    · rw [heq]
      exact hb
    · rw [heq]
      intro id s hk hs
      rw [Analyze.withSymbol, Registry.get?_add] at hs
      split at hs
      · cases hs
        exact ⟨hi.kind, hi.methods, info, cs, hn, .inr (.inr ⟨hrole, rfl⟩), hcut⟩
      · exact hb id s hk hs) a fun id s hk hs => by
        rw [Registry.get?_eq_none hk] at hs
        cases hs
  rw [h] at hkeeps
  exact hkeeps id s hid hs

/-- **Recorded code and lines fit together.** Let a text be parsed without complaints. Every class,
interface and method that a collection makes a symbol of is recorded with the text from its first
through its last token, which has as many line feeds as the lines of the two are apart; and what is
recorded of a method lies inside of what is recorded of the symbol that has it among its methods. An
analysis of the text leaves the symbols that there are what they were, and those that it adds are
imports, which are recorded in the same way. -/
theorem recorded_code_fits_lines (text : String) :
    (∀ registry file c, (Java.parse text).complaints = [] →
      collect registry file text (Java.parse text).tree = .ok c →
      ∀ id s, registry.size ≤ id → c.registry.get? id = some s →
        (∃ info cs, .node info cs ∈ (Java.parse text).tree.nodes ∧ DeclaresA s.kind info ∧
          s.RecordedFrom text (.node info cs)) ∧
        ∀ name m, s.methods.get? name = some m → ∃ i, c.registry.get? m = some i ∧
          i.code.toList <:+: s.code.toList ∧ s.startLine ≤ i.startLine ∧ i.stopLine ≤ s.stopLine) ∧
    ∀ (c : Setting) a result a', (Java.parse text).complaints = [] → c.source = text →
      (Analyze.visit c {} (Java.parse text).tree).run.run a = (result, a') →
      a.registry.Later a'.registry ∧
      ∀ id s, a.registry.size ≤ id → a'.registry.get? id = some s → s.kind = .import ∧
        s.methods = ∅ ∧
        ∃ info cs, .node info cs ∈ (Java.parse text).tree.nodes ∧ DeclaresA s.kind info ∧
          s.RecordedFrom text (.node info cs) := by
  constructor
  · intro registry file c hclean hc id s hid hs
    obtain ⟨info, cs, hn, hdeclares, hcut, hmethods⟩ := collect_cut hc hid hs
    refine ⟨⟨info, cs, hn, hdeclares, recordedFrom_of_cut hclean hn hdeclares.closes hcut⟩,
      fun name m hm => ?_⟩
    obtain ⟨info', cs', i, hn', hdeclares', hin, hi, hcut'⟩ := hmethods name m hm
    exact ⟨i, hi, inside_of_cut hclean hn hdeclares.closes hn' hdeclares'.closes hin hcut hcut'⟩
  · rintro c a result a' hclean rfl h
    constructor
    · have hlater := Analyze.visit_keeps (Analyze.stable_later c a.registry) {}
        (Java.parse c.source).tree a (.refl _)
      rw [h] at hlater
      exact hlater
    · intro id s hid hs
      obtain ⟨hkind, hmethods, info, cs, hn, hdeclares, hcut⟩ := analyze_cut h hid hs
      exact ⟨hkind, hmethods, info, cs, hn, hkind.symm ▸ hdeclares,
        recordedFrom_of_cut hclean hn hdeclares.closes hcut⟩

end Coupling.Project
