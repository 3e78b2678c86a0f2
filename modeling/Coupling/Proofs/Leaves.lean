import Mathlib.Data.List.Nodup
import Coupling.Java.ParseTree.Walk
import Coupling.Proofs.CleanRuns
import Coupling.Proofs.Lexemes
import Coupling.Proofs.Nesting

/-!
# The leaves of a parse tree

A parse passes the tokens off the hidden channel in order, and what it passes becomes a leaf: the
leaves of a tree stand for the tokens before the one at which the parse ended, whether or not it
complained. Without a complaint the parse ends at the end of the text, which is then the last leaf,
and every node below the root stands for the tokens from its start to its stop (`parse_leaves`).
-/

namespace Coupling.Java

/-! ## The tokens of a source -/

/-- The tokens of a text off the hidden channel, in order, without the end of the text. -/
def visibleTokens (text : String) : List Token :=
  ((pieces text).filterMap Piece.token?).filter fun t => !t.hidden

theorem map_token_readings (last : Token) (before ps : List Piece) :
    (readings last before ps).map Reading.token = ((ps.filterMap Piece.token?).filter fun t =>
      !t.hidden) ++ [last] := by
  fun_induction readings last before ps with
  | case1 before => rfl
  | case2 before t rest hhidden ih | case3 before t rest hhidden ih =>
    simp [ih, Piece.token?, hhidden]
  | case4 before s p rest ih => rw [ih, List.filterMap_cons_none rfl]

variable {text : String} {c : Scope} {t : ParseTree} {j i : Nat}

theorem ne_eof_of_mem_visible {t : Token} (h : t ∈ visibleTokens text) : t.kind ≠ .eof := by
  obtain ⟨p, hp, ht⟩ := List.mem_filterMap.mp (List.mem_filter.mp h).1
  obtain ⟨before, w, rest, hstands⟩ := (cuts_pieces text).stands hp
  rw [hstands.piece] at ht
  cases hscan : Lexing.scan Lexicon.rules (w ++ rest) with
  | lexeme k n =>
    rw [hscan] at ht
    cases ht
    exact Lexicon.ne_eof_of_matches ((Lexicon.offers_iff _ _).mp
      (Lexicon.lexeme_of_scan hscan).offered)
  | stuck n =>
    rw [hscan] at ht
    cases ht

namespace Source

variable (text : String)

theorem size_ofText : (ofText text).size = (visibleTokens text).length + 1 := by
  have hlength := congrArg List.length (map_token_readings (endToken text) [] (pieces text))
  rw [List.length_map, List.length_append, List.length_singleton] at hlength
  exact List.size_toArray.trans hlength

theorem token_ofText (i : Nat) :
    (ofText text).token i = ((visibleTokens text)[i]?).getD (endToken text) := by
  have hall := map_token_readings (endToken text) [] (pieces text)
  have hget : ((Java.readings (endToken text) [] (pieces text))[i]?).map Reading.token =
      (visibleTokens text ++ [endToken text])[i]? := by
    rw [← List.getElem?_map, hall]
    rfl
  have hlast : ((Java.readings (endToken text) [] (pieces text)).getLast?).map Reading.token =
      some (endToken text) := by
    rw [← List.getLast?_map, hall, List.getLast?_concat]
  have hback : ((ofText text).readings.back?.getD default).token = endToken text := by
    rw [ofText, List.back?_toArray]
    cases hr : (Java.readings (endToken text) [] (pieces text)).getLast? with
    | none =>
      rw [hr] at hlast
      cases hlast
    | some r =>
      rw [hr] at hlast
      exact Option.some.inj hlast
  have hread : (ofText text).readings[i]? = (Java.readings (endToken text) [] (pieces text))[i]? :=
    List.getElem?_toArray
  unfold token reading
  rw [hread]
  cases hr : (Java.readings (endToken text) [] (pieces text))[i]? with
  | none =>
    rw [hr] at hget
    have hnone := List.getElem?_eq_none_iff.mp hget.symm
    rw [List.length_append, List.length_singleton] at hnone
    rw [List.getElem?_eq_none (Nat.le_of_succ_le hnone)]
    exact hback
  | some r =>
    rw [hr] at hget
    by_cases hi : i < (visibleTokens text).length
    · rw [List.getElem?_append_left hi] at hget
      rw [← hget]
      rfl
    · have hle := Nat.le_of_not_lt hi
      rw [List.getElem?_append_right hle] at hget
      rw [List.getElem?_eq_none hle]
      exact (List.mem_singleton.mp (List.mem_of_getElem? hget.symm))

theorem kind_ofText (i : Nat) : (ofText text).kind i = .eof ↔ (visibleTokens text).length ≤ i := by
  rw [kind, token_ofText]
  by_cases hi : i < (visibleTokens text).length
  · rw [List.getElem?_eq_getElem hi, Option.getD_some]
    exact iff_of_false (ne_eof_of_mem_visible (List.getElem_mem hi)) (Nat.not_le_of_lt hi)
  · have hle := Nat.le_of_not_lt hi
    rw [List.getElem?_eq_none hle]
    exact iff_of_true rfl hle

theorem ends_ofText : (ofText text).Ends := by
  intro i hi
  rw [size_ofText]
  have hlt := Nat.lt_of_not_le ((kind_ofText text i).not.mp hi)
  omega

theorem between_ofText {i j : Nat} (hj : j ≤ (visibleTokens text).length) :
    (ofText text).between i j = (visibleTokens text).extract i j := by
  refine List.ext_getElem? fun k => ?_
  rw [between, List.getElem?_map, List.extract_eq_take_drop, List.getElem?_take]
  split
  · next hk =>
    have hlt : i + k < (visibleTokens text).length := by omega
    rw [List.getElem?_drop, List.getElem?_range' hk, Option.map_some, Nat.one_mul, token_ofText,
      List.getElem?_eq_getElem hlt]
    rfl
  · next hk =>
    rw [List.getElem?_eq_none (by simpa using hk)]
    rfl

end Source

/-! ## Leaves of every parse -/

/-- A run whose node, begun at a position, holds the tokens that were passed since. -/
structure Run.Holds (source : Source) (first : Nat) (r : Run) : Prop where
  le : first ≤ r.state.pos
  taken : r.frame.children.reverse.flatMap ParseTree.taken = source.between first r.state.pos

namespace Run.Holds

variable {source : Source} {first : Nat} {r r' : Run}

theorem reads (h : r.Holds source first) (hreads : r.Reads source r') : r'.Holds source first := by
  obtain ⟨new, hnew, -, htaken⟩ := hreads.leaves
  refine ⟨Nat.le_trans h.le hreads.le, ?_⟩
  rw [hnew, List.reverse_append, List.flatMap_append, h.taken, htaken,
    Source.between_append h.le hreads.le]

theorem tree (h : r.Holds source first) (stop : Option Token) :
    (r.frame.tree stop).taken = source.between first r.state.pos := by
  rw [Frame.tree, ParseTree.taken_node, h.taken]

end Run.Holds

variable {code : List Step} {first : Nat} {k k' : Kind} {rule : RuleName} {f : Frame}

/-- Whatever steps make of a node, it holds the tokens that were passed. -/
theorem Runs.holds {r r' : Run} (h : Runs c code r r') (hr : r.Holds c.source first) :
    r'.Holds c.source first := by
  induction h generalizing first with
  | stop => exact hr
  | reads hreads _ ih => exact ih (hr.reads hreads)
  | turn _ _ ih => exact ih hr
  | @call c place next rule level label rest r inner r' _ _ ihinner ih =>
    have hinner : inner.Holds c.source r.state.pos :=
      ihinner ⟨Nat.le_refl _, by simp [Scope.begin, State.log]⟩
    refine ih ?_
    have hadded : (r.close c.source none inner).Holds c.source first := by
      refine ⟨Nat.le_trans hr.le hinner.le, ?_⟩
      have htree := hinner.tree (inner.state.previous c.source)
      simp only [Run.close, Frame.name, Frame.add, List.reverse_cons, List.flatMap_append, hr.taken,
        List.flatMap_cons, List.flatMap_nil, List.append_nil, htree, State.log]
      exact Source.between_append hr.le hinner.le
    cases label <;> exact ⟨hadded.le, hadded.taken⟩
  | become _ ih => exact ih ⟨hr.le, hr.taken⟩
  | @operand c _ _ _ _ _ _ _ op rest r r' _ _ ih =>
    refine ih ⟨hr.le, ?_⟩
    have htree := hr.tree (r.state.previous c.source)
    simpa [Scope.takeOperand, State.log] using htree

/-- The leaves of a tree stand for the tokens before the one at which the parse ended. -/
theorem Engine.parseRule_taken (e : Engine) (rule : RuleName) (source : Source) : ∃ j,
    (e.parseRule rule source).tree.taken = source.between 0 j ∧
    (e.parseRule rule source).next = source.token j := by
  let c : Scope := ⟨e.net, source, [], rule, 0⟩
  let s : State := State.fetch source 0 ⟨0, 0, rule.start, false, none, [], [], [], e.memory⟩
  let o := exec (e.fuelFor source) c (e.net.steps rule) (c.begin s)
  have hbegin : (c.begin s).Holds source 0 := by
    have hpos : (c.begin s).state.pos = 0 := State.pos_fetch _ _ _
    exact ⟨Nat.zero_le _, by rw [hpos, Source.between_self]; rfl⟩
  have hholds : (c.closing o).Holds source 0 :=
    ((exec_runs _ c _ _).andReads (c.reads_closing o)).holds hbegin
  refine ⟨(c.closing o).state.pos, ?_, ?_⟩
  · have htree : (e.parseRule rule source).tree = (c.finish o).1 := rfl
    rw [htree, Scope.finish_eq]
    exact hholds.tree _
  · have hnext : (e.parseRule rule source).next = source.token (c.finish o).2.pos := rfl
    rw [hnext, Scope.finish_eq]
    rfl

theorem ParseTree.ne_eof_of_mem_taken {x : Token} (h : x ∈ t.taken) : x.kind ≠ .eof := by
  obtain ⟨l, -, hl⟩ := List.mem_filterMap.mp h
  intro heof
  cases l with
  | missing k => cases hl
  | token y | skipped y =>
    simp only [Leaf.taken?] at hl
    split at hl
    · cases hl
    · next hy =>
      cases hl
      exact hy heof

/-- A parse never passes the end of the text. -/
theorem le_of_taken (h : t.taken = (Source.ofText text).between 0 j) :
    j ≤ (visibleTokens text).length := by
  by_contra hlt
  have hmem : (Source.ofText text).token (visibleTokens text).length ∈ t.taken := by
    rw [h, Source.between, Nat.sub_zero]
    exact List.mem_map_of_mem (List.mem_range'_1.mpr ⟨Nat.zero_le _, by omega⟩)
  exact ParseTree.ne_eof_of_mem_taken hmem ((Source.kind_ofText text _).mpr (Nat.le_refl _))

/-! ## Where the end of the text is read -/

/-- The limits of steps that neither read the end of the text nor call the rule of a whole text. -/
def Limits.inner : Limits := ⟨fun kinds => !kinds.contains .eof, fun r => r != .compilationUnit,
    fun _ => true⟩

theorem Kind.index_inj (h : k.index = k'.index) : k = k' := by
  have hnodup : (Kind.all.map Kind.index).Nodup :=
    (List.pairwise_map.mpr (Lexicon.pairwise_index.imp fun hlt => Nat.ne_of_lt hlt))
  exact List.inj_on_of_nodup_map hnodup (Lexicon.mem_all k) (Lexicon.mem_all k') h

theorem KindSet.contains_single : (single k).contains k' = true ↔ k' = k := by
  have hbit : (1 <<< k.index).testBit k'.index = decide (k.index = k'.index) := by
    rw [Nat.shiftLeft_eq, Nat.one_mul, Nat.testBit_two_pow]
  have hindex : k.index = k'.index ↔ k' = k :=
    ⟨fun h => (Kind.index_inj h).symm, fun h => h ▸ rfl⟩
  rw [contains, single, hbit, decide_eq_true_eq, hindex]

/-- Only the rule of a whole text reads its end, and nothing calls it. -/
theorem inner_production (h : rule ≠ .compilationUnit) : (production rule).keeps .inner = true := by
  have hall : (RuleName.all.all fun r => r == .compilationUnit || (production r).keeps .inner) =
    true := by decide +kernel
  have hrule := List.all_eq_true.mp hall rule (List.mem_of_getElem? (RuleName.getElem?_all rule))
  simpa [h] using hrule

theorem inner_steps (h : rule ≠ .compilationUnit) : ∀ s ∈ javaNetwork.steps rule, s.Keeps .inner :=
  (Network.steps_coded production rule).keeps (inner_production h)

/-! ## What the nodes stand for -/

/-- A node that stands for the tokens of a source from one position up to another: it starts at the
first of them, stops at the last, and they are its leaves. -/
def ParseTree.Spans (source : Source) (i j : Nat) : ParseTree → Prop
  | .node info cs => info.start = source.token i ∧
    info.stop = (if j = 0 then none else some (source.token (j - 1))) ∧
    leavesOf cs = (source.between i j).map Leaf.token
  | _ => False

/-- A tree whose nodes all stand for tokens before a position. -/
def ParseTree.Spanned (source : Source) (i : Nat) (t : ParseTree) : Prop :=
  ∀ n ∈ t.nodes, ∃ i' j', i' ≤ j' ∧ j' ≤ i ∧ n.Spans source i' j'

theorem ParseTree.mem_nodesOf {n : ParseTree} {ts : List ParseTree} :
    n ∈ nodesOf ts ↔ ∃ t ∈ ts, n ∈ t.nodes := by
  induction ts with
  | nil => simp [nodesOf]
  | cons t ts ih => simp [nodesOf, ih]

theorem ParseTree.Spanned.mono {source : Source} (h : t.Spanned source i) (hij : i ≤ j) :
    t.Spanned source j := by
  intro n hn
  obtain ⟨i', j', hle, hle', hspans⟩ := h n hn
  exact ⟨i', j', hle, Nat.le_trans hle' hij, hspans⟩

/-- A node in the making, begun at a position, whose parts stand for the tokens up to another. -/
structure Frame.Spans (source : Source) (first i : Nat) (f : Frame) : Prop where
  le : first ≤ i
  start : f.start = source.token first
  leaves : ParseTree.leavesOf f.children.reverse = (source.between first i).map Leaf.token
  nodes : ∀ t ∈ f.children, t.Spanned source i

namespace Frame.Spans

variable {source : Source} {first i j : Nat} {f : Frame}

theorem opened {c : Scope} (i : Nat) : (c.opened i).Spans c.source i i :=
  ⟨Nat.le_refl _, rfl, by rw [Source.between_self]; rfl, fun _ ht => by cases ht⟩

variable (h : f.Spans source first i)
include h

theorem closed : (f.closed source i).Spans source first i ∧
    (f.closed source i).Spanned source i := by
  have hspans : (f.closed source i).Spans source first i := ⟨h.start, rfl, h.leaves⟩
  refine ⟨hspans, fun n hn => ?_⟩
  rcases List.mem_cons.mp hn with rfl | hn
  · exact ⟨first, i, h.le, Nat.le_refl _, hspans⟩
  · obtain ⟨t, ht, hn⟩ := ParseTree.mem_nodesOf.mp hn
    exact h.nodes t (List.mem_reverse.mp ht) n hn

theorem add {t : ParseTree} (hij : i ≤ j) (hleaves : t.leaves = (source.between i j).map Leaf.token)
    (ht : t.Spanned source j) (label : Option Label) :
    ((f.add t).name label).Spans source first j := by
  have hadded : (f.add t).Spans source first j := by
    refine ⟨Nat.le_trans h.le hij, h.start, ?_,
      List.forall_mem_cons.mpr ⟨ht, fun t ht => (h.nodes t ht).mono hij⟩⟩
    have hold := h.leaves
    rw [ParseTree.leavesOf_eq_flatMap] at hold
    rw [ParseTree.leavesOf_eq_flatMap, Frame.add, List.reverse_cons, List.flatMap_append, hold,
      List.flatMap_singleton, hleaves, ← List.map_append, Source.between_append h.le hij]
  cases label <;> exact ⟨hadded.le, hadded.start, hadded.leaves, hadded.nodes⟩

theorem operand (form : Form) :
    Frame.Spans source first i ⟨form, f.start, [f.closed source i], []⟩ := by
  obtain ⟨-, hspanned⟩ := h.closed
  exact ⟨h.le, h.start, (List.append_nil _).trans h.leaves, List.forall_mem_singleton.mpr hspanned⟩

end Frame.Spans

/-- Steps that do not read the end of the text leave a node that stands for the tokens they have
passed. -/
theorem Went.spans {f' : Frame} (h : Went c code f i f' j)
    (hnet : ∀ rule ≠ .compilationUnit, ∀ s ∈ c.net.steps rule, s.Keeps .inner)
    (hcode : ∀ s ∈ code, s.Keeps .inner)
    (hf : f.Spans c.source first i) : f'.Spans c.source first j := by
  induction h generalizing first with
  | nil => exact hf
  | @read c _ _ _ _ _ _ _ _ i _ hkinds _ ih =>
    obtain ⟨hread, hrest⟩ := List.forall_mem_cons.mp hcode
    have hafter : c.source.after i = i + 1 := by
      cases hread with
      | read hnot => exact if_neg fun heof => by simp [Limits.inner, ← heof, hkinds] at hnot
    refine ih hnet hrest (hf.add (Source.le_after _ _) ?_ (fun n hn => by cases hn) _)
    rw [hafter, Source.between_succ]
    rfl
  | @call c _ _ _ _ _ _ _ inner _ i k _ hinner _ ihinner ih =>
    obtain ⟨hcall, hrest⟩ := List.forall_mem_cons.mp hcode
    cases hcall with
    | call hrule =>
      obtain ⟨hspans, hspanned⟩ := (ihinner hnet (hnet _ (bne_iff_ne.mp hrule)) (.opened i)).closed
      have hleaves : (inner.closed c.source k).leaves = (c.source.between i k).map Leaf.token :=
        hspans.2.2
      exact ih hnet hrest (hf.add hinner.le hleaves hspanned _)
  | turn hpicks _ ih => exact ih hnet (keeps_turned hcode hpicks.turns) hf
  | become _ ih =>
    obtain ⟨-, hrest⟩ := List.forall_mem_cons.mp hcode
    exact ih hnet hrest ⟨hf.le, hf.start, hf.leaves, hf.nodes⟩
  | operand hop _ _ ih => exact ih hnet (keeps_operand hcode hop).2 (hf.operand _)

/-! ## The whole text -/

/-- What the rule of a whole text offers: steps that do not read its end, and then its end. -/
theorem steps_compilationUnit : ∃ place decision codes, javaNetwork.steps .compilationUnit =
    [.choose place decision codes] ∧
    ∀ code ∈ codes, ∃ front place next, code = front ++
      [.read place next (.single .eof) (some .eof) none] ∧
      ∀ s ∈ front, s.Keeps .inner := by
  have hcoded : (Production.plain [_, _]).Coded _ (javaNetwork.steps .compilationUnit) :=
    Network.steps_coded production .compilationUnit
  generalize javaNetwork.steps .compilationUnit = steps at hcoded
  cases hcoded with
  | among hcodes _ =>
    refine ⟨_, _, _, rfl, fun code hcode => ?_⟩
    obtain ⟨alt, halt, hseq⟩ := hcodes.exists_alt hcode
    have hends : ∃ es, alt = es ++ [.token .eof] ∧ seqKeeps .inner es = true := by
      simp only [List.mem_cons, List.not_mem_nil, or_false] at halt
      refine ⟨alt.dropLast, ?_, ?_⟩
      · rcases halt with rfl | rfl <;> rfl
      · rcases halt with rfl | rfl <;> rfl
    obtain ⟨es, rfl, hinner⟩ := hends
    obtain ⟨front, s, rfl, hfront, hs⟩ := hseq.concat
    cases hs with
    | token => exact ⟨front, _, _, rfl, hfront.keeps es hinner⟩

/-- A rule that ends with the end of the text has it as its last leaf. -/
theorem Went.whole {place decision : Nat} {codes : List (List Step)}
    (h : Went c [.choose place decision codes] (c.opened i) i f j)
    (hnet : ∀ rule ≠ .compilationUnit, ∀ s ∈ c.net.steps rule, s.Keeps .inner)
    (hcodes : ∀ code ∈ codes, ∃ front place next,
      code = front ++ [.read place next (.single .eof) (some .eof) none] ∧
      ∀ s ∈ front, s.Keeps .inner) :
    ∃ f₁ : Frame, f₁.Spans c.source i j ∧ c.source.kind j = .eof ∧
    f = f₁.add (.token (c.source.token j)) := by
  cases h with
  | turn hcode hwent =>
    obtain ⟨front, p, next, rfl, hinner⟩ := hcodes _ hcode
    obtain ⟨f₁, k, hfront, hend⟩ := hwent.split (List.append_nil _)
    have hspans := hfront.spans hnet hinner (.opened i)
    cases hend with
    | read hkinds hnil =>
      have hkind := KindSet.contains_single.mp hkinds
      rw [Source.after, if_pos hkind] at hnil
      cases hnil
      exact ⟨f₁, hspans, hkind, rfl⟩
    | turn hpicks => exact hpicks.elim

/-- A text that was parsed without complaints was read by the steps of a whole text. -/
theorem parse_went (h : (parse text).complaints = []) :
    ∃ f j, Went ⟨javaNetwork, .ofText text, [], .compilationUnit, 0⟩
        (javaNetwork.steps .compilationUnit)
        (Scope.opened ⟨javaNetwork, .ofText text, [], .compilationUnit, 0⟩ 0) 0 f j ∧
      (parse text).tree = f.closed (.ofText text) j ∧
      (parse text).next = (Source.ofText text).token j := by
  have hplaces : javaBound ≤ javaNetwork.places.size :=
    Nat.le_trans (by decide +kernel) (Network.le_places production)
  have hsteps := suffices_steps (k := javaNetwork.places.size + 2) (Network.steps_coded production)
    javaGauge_fits
    (Nat.le_add_right_of_le hplaces) (Network.ofGrammar_ordered production)
    (Source.ends_ofText text) 0 (by rw [Source.size_ofText]; exact Nat.succ_pos _) []
      .compilationUnit 0
  exact Engine.parseRule_went (Nat.le_trans (by decide) hplaces) hsteps h

/-- The tree of a text that was parsed without complaints: a node that holds the tokens, and then
the end of the text. -/
theorem parse_spans (h : (parse text).complaints = []) : ∃ f : Frame,
    f.Spans (.ofText text) 0 (visibleTokens text).length ∧
      (parse text).tree = (f.add (.token (endToken text))).closed (.ofText text)
        (visibleTokens text).length := by
  obtain ⟨f, j, hwent, htree, -⟩ := parse_went h
  obtain ⟨place, decision, codes, hsteps, hcodes⟩ := steps_compilationUnit
  have hpos : 0 < (Source.ofText text).size := by
    rw [Source.size_ofText]
    exact Nat.succ_pos _
  have hlt := hwent.lt_size (Source.ends_ofText text) hpos
  rw [hsteps] at hwent
  obtain ⟨f₁, hspans, hkind, rfl⟩ := hwent.whole (fun rule hrule => inner_steps hrule) hcodes
  have hle := (Source.kind_ofText text j).mp hkind
  have hsame : j = (visibleTokens text).length := by
    have hsize := Source.size_ofText text
    simp only at hlt
    omega
  subst hsame
  have htoken : (Source.ofText text).token (visibleTokens text).length = endToken text := by
    rw [Source.token_ofText, List.getElem?_eq_none (Nat.le_refl _)]
    rfl
  refine ⟨f₁, hspans, ?_⟩
  rw [htree, ← htoken]

theorem ParseTree.text_of_leaves
    (h : t.leaves = ((visibleTokens text).extract i j).map Leaf.token) :
    t.text = String.join (((visibleTokens text).extract i j).map Token.text) := by
  rw [ParseTree.text, h, List.map_map]
  refine congrArg String.join (List.map_congr_left fun x hx => ?_)
  rw [List.extract_eq_take_drop] at hx
  exact if_neg (ne_eof_of_mem_visible (List.mem_of_mem_drop (List.mem_of_mem_take hx)))

/-- A node that stands for tokens of a text has their texts. -/
theorem ParseTree.Spans.of_text (h : t.Spans (.ofText text) i j) (hij : i ≤ j)
    (hj : j ≤ (visibleTokens text).length) :
    ∃ info cs i j, t = .node info cs ∧
      i ≤ j ∧ j ≤ (visibleTokens text).length ∧
      info.start = ((visibleTokens text)[i]?).getD (endToken text) ∧
      info.stop = (if j = 0 then none else (visibleTokens text)[j - 1]?) ∧
      t.leaves = ((visibleTokens text).extract i j).map Leaf.token ∧
      t.text = String.join (((visibleTokens text).extract i j).map Token.text) := by
  cases t with
  | node info cs =>
    obtain ⟨hstart, hstop, hleaves⟩ := h
    rw [Source.between_ofText text hj] at hleaves
    rw [Source.token_ofText] at hstart
    refine ⟨info, cs, i, j, rfl, hij, hj, hstart, ?_, hleaves, ParseTree.text_of_leaves hleaves⟩
    rw [hstop]
    split
    · rfl
    · rw [Source.token_ofText, List.getElem?_eq_getElem (by omega), Option.getD_some]
  | _ => exact h.elim

/-- **The leaves of a parse tree are the tokens of the text.** Whatever the text, the leaves without
the missing tokens and the end of the text are the visible tokens before the one at which the parse
ended. If there was nothing to complain about, they are all of them, with the end of the text as one
more leaf, and every node below the root stands for a stretch of them: it starts at the first, stops
at the last, and its text is made of theirs. -/
theorem parse_leaves (text : String) :
    (∃ n ≤ (visibleTokens text).length, (parse text).tree.taken = (visibleTokens text).take n ∧
      (parse text).next = ((visibleTokens text)[n]?).getD (endToken text)) ∧
    ((parse text).complaints = [] →
      (parse text).tree.leaves = (visibleTokens text).map Leaf.token ++ [.token (endToken text)] ∧
      (parse text).tree.text = String.join ((visibleTokens text).map Token.text) ++ "<EOF>" ∧
      ∀ t ∈ ParseTree.nodesOf (parse text).tree.children, ∃ info cs i j, t = .node info cs ∧
        i ≤ j ∧ j ≤ (visibleTokens text).length ∧
        info.start = ((visibleTokens text)[i]?).getD (endToken text) ∧
        info.stop = (if j = 0 then none else (visibleTokens text)[j - 1]?) ∧
        t.leaves = ((visibleTokens text).extract i j).map Leaf.token ∧
        t.text = String.join (((visibleTokens text).extract i j).map Token.text)) := by
  constructor
  · obtain ⟨n, htaken, hnext⟩ := javaEngine.parseRule_taken .compilationUnit (.ofText text)
    have hle := le_of_taken htaken
    rw [Source.between_ofText text hle, List.extract_eq_take_drop, List.drop_zero, Nat.sub_zero]
      at htaken
    rw [Source.token_ofText] at hnext
    exact ⟨n, hle, htaken, hnext⟩
  · intro h
    obtain ⟨f, hspans, htree⟩ := parse_spans h
    have hall := hspans.leaves
    rw [Source.between_ofText text (Nat.le_refl _), List.extract_eq_take_drop, List.drop_zero,
      Nat.sub_zero, List.take_length] at hall
    have hleaves : (parse text).tree.leaves = (visibleTokens text).map Leaf.token ++
        [.token (endToken text)] := by
      rw [htree, Frame.closed, Frame.tree, ParseTree.leaves, Frame.add, List.reverse_cons,
        ParseTree.leavesOf_eq_flatMap, List.flatMap_append, ← ParseTree.leavesOf_eq_flatMap, hall]
      rfl
    refine ⟨hleaves, ?_, fun t ht => ?_⟩
    · have hshown : (visibleTokens text).map (Leaf.text ∘ Leaf.token) =
          (visibleTokens text).map Token.text :=
        List.map_congr_left fun x hx => if_neg (ne_eof_of_mem_visible hx)
      rw [ParseTree.text, hleaves, List.map_append, String.join_append, List.map_map, hshown]
      rfl
    · rw [htree] at ht
      obtain ⟨part, hpart, ht⟩ := ParseTree.mem_nodesOf.mp ht
      rcases List.mem_cons.mp (List.mem_reverse.mp hpart) with rfl | hpart
      · cases ht
      · obtain ⟨i, j, hij, hj, ht⟩ := hspans.nodes part hpart t ht
        exact ht.of_text hij hj

end Coupling.Java
