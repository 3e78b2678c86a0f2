import Coupling.Proofs.Leaves

/-!
# How declarations end

The last token of a class, interface, method or import declaration is a brace or a semicolon. Which
rules end like that can be read off their last elements (`Production.ends`); what the steps of such
a rule pass last is such a token, whichever way they are taken (`Went.closes`). So in the tree of a
text that was parsed without complaints, every node of such a rule stands for tokens of which there
is at least one, and the last is a closing one (`parse_sealed`).

A closing token is one character, and no line feed. Since a token's line counts the line feeds
before it, the text from one token to a closing one has as many as their lines are apart
(`lines_between`).
-/

namespace Coupling.Java

/-! ## Rules that end with a closing token -/

/-- The tokens that close a declaration. -/
def Kind.isCloser (k : Kind) : Bool := k == .rbrace || k == .semi

/-- The rules of declarations, and of what is at their end. -/
def RuleName.closes : RuleName → Bool
  | .importDeclaration | .classDeclaration | .interfaceDeclaration | .methodDeclaration |
    .interfaceCommonBodyDeclaration
  | .classBody | .interfaceBody | .methodBody | .block => true
  | _ => false

/-- An element that ends with a closing token. -/
def Element.ends : Element → Bool
  | .token k => k.isCloser
  | .call r _ => r.closes
  | _ => false

/-- A right-hand side whose alternatives all end with a closing token. -/
def Production.ends : Production → Bool
  | .plain alts => alts.all fun a => a.getLast?.any Element.ends
  | .climbing _ _ => false

theorem production_ends {r : RuleName} (h : r.closes = true) : (production r).ends = true := by
  cases r <;> first | rfl | cases h

/-- Steps that pass a closing token last, whichever way they are taken. -/
inductive EndsClosed : List Step → Prop where
  | read {place next : Nat} {k : Kind} {only : Option Kind} {label : Option Label} :
      k.isCloser = true →
      EndsClosed [.read place next (.single k) only label]
  | call {place next : Nat} {rule : RuleName} {level : Nat} {label : Option Label} :
      rule.closes = true →
      EndsClosed [.call place next rule level label]
  | choose {place decision : Nat} {codes : List (List Step)} : (∀ code ∈ codes, EndsClosed code) →
      EndsClosed [.choose place decision codes]
  | cons {step : Step} {rest : List Step} : EndsClosed rest → EndsClosed (step :: rest)

theorem EndsClosed.append (front : List Step) {rest : List Step} (h : EndsClosed rest) :
    EndsClosed (front ++ rest) := by
  induction front with
  | nil => exact h
  | cons _ _ ih => exact .cons ih

variable {count : Nat → Nat} {code : List Step} {i j : Nat} {text : String} {cs : List Char}

theorem SeqCoded.closing {es : List Element} (h : SeqCoded count es code)
    (hends : es.getLast?.any Element.ends = true) :
    EndsClosed code := by
  obtain ⟨e, hlast, he⟩ : ∃ e, es.getLast? = some e ∧ e.ends = true := by
    cases hlast : es.getLast? with
    | none =>
      rw [hlast] at hends
      cases hends
    | some e =>
      rw [hlast] at hends
      exact ⟨e, rfl, hends⟩
  obtain ⟨front, rfl⟩ := List.getLast?_eq_some_iff.mp hlast
  obtain ⟨ss, s, rfl, -, hs⟩ := h.concat
  refine .append ss ?_
  cases hs with
  | token => exact .read he
  | call => exact .call he
  | _ => cases he

theorem Production.Coded.closing {p : Production} {steps : List Step} (h : p.Coded count steps)
    (hends : p.ends = true) :
    EndsClosed steps := by
  cases h with
  | only hparts => exact hparts.closing (List.all_eq_true.mp hends _ List.mem_cons_self)
  | among hcodes _ =>
    refine .choose fun code hcode => ?_
    obtain ⟨alt, halt, hseq⟩ := hcodes.exists_alt hcode
    exact hseq.closing (List.all_eq_true.mp hends alt halt)
  | climbing _ _ _ _ => cases hends

theorem steps_closing {rule : RuleName} (h : rule.closes = true) :
    EndsClosed (javaNetwork.steps rule) :=
  (Network.steps_coded production rule).closing (production_ends h)

/-- What is passed last is a closing token. -/
theorem Went.closes {c : Scope} {f f' : Frame} (h : Went c code f i f' j)
    (hnet : ∀ rule, rule.closes = true → EndsClosed (c.net.steps rule)) (hcode : EndsClosed code) :
    i < j ∧ (c.source.kind (j - 1)).isCloser = true := by
  induction h with
  | nil => cases hcode
  | @read c _ _ _ _ _ _ _ _ i _ hkinds hrest ih =>
    cases hcode with
    | read hcloser =>
      have hkind := KindSet.contains_single.mp hkinds
      have hafter : c.source.after i = i + 1 := by
        refine if_neg fun heof => ?_
        rw [← hkind, heof] at hcloser
        cases hcloser
      cases hrest with
      | nil =>
        rw [hafter, Nat.add_sub_cancel, hkind]
        exact ⟨Nat.lt_succ_self i, hcloser⟩
    | cons hrest =>
      exact (ih hnet hrest).imp_left (Nat.lt_of_le_of_lt (Source.le_after _ _))
  | call hinner hrest ihinner ih =>
    cases hcode with
    | call hrule =>
      cases hrest with
      | nil => exact ihinner hnet (hnet _ hrule)
    | cons hcode => exact (ih hnet hcode).imp_left (Nat.lt_of_le_of_lt hinner.le)
  | turn hpicks _ ih =>
    cases hcode with
    | choose hcodes =>
      refine ih hnet ?_
      rw [List.append_nil]
      exact hcodes _ hpicks
    | cons hcode => exact ih hnet (.append _ hcode)
    | read | call => exact hpicks.elim
  | become _ ih =>
    cases hcode with
    | cons hcode => exact ih hnet hcode
  | operand _ _ _ ih =>
    cases hcode with
    | cons hcode => exact ih hnet (.append _ (.cons hcode))

/-! ## Nodes that end with a closing token -/

/-- A node of a rule that ends with a closing token stands for tokens the last of which is one. -/
def ParseTree.Sealed (source : Source) (n : ParseTree) : Prop := ∀ info cs, n = .node info cs →
  info.form.ruleName.closes = true → ∃ i j, i < j ∧ n.Spans source i j ∧
  (source.kind (j - 1)).isCloser = true

/-- The limits of steps of a rule that do not call the rule of a whole text, and give nodes of other
forms only if the rule and the form are of the other kind. -/
def Limits.sealing (rule : RuleName) : Limits :=
  ⟨fun _ => true, fun callee => callee != .compilationUnit, fun form =>
    !rule.closes && !form.ruleName.closes⟩

theorem sealing_steps (rule : RuleName) :
    ∀ s ∈ javaNetwork.steps rule, s.Keeps (.sealing rule) := by
  have hall : ∀ r : RuleName, (production r).keeps (.sealing r) = true :=
    fun r => by cases r <;> rfl
  exact (Network.steps_coded production rule).keeps (hall rule)

/-- A node in the making: a form that ends with a closing token is that of its rule, and its parts
are sealed. -/
structure Frame.Sealed (source : Source) (rule : RuleName) (f : Frame) : Prop where
  form : f.form.ruleName.closes = true → rule.closes = true
  nodes : ∀ t ∈ f.children, ∀ n ∈ t.nodes, n.Sealed source

variable {source : Source} {rule : RuleName} {f : Frame}

theorem Frame.Sealed.add (h : f.Sealed source rule) {t : ParseTree}
    (ht : ∀ n ∈ t.nodes, n.Sealed source)
    (label : Option Label) : ((f.add t).name label).Sealed source rule := by
  have hadded : (f.add t).Sealed source rule := ⟨h.form, List.forall_mem_cons.mpr ⟨ht, h.nodes⟩⟩
  cases label <;> exact ⟨hadded.form, hadded.nodes⟩

theorem Frame.Sealed.closed (h : f.Sealed source rule) (hself : (f.closed source j).Sealed source) :
    ∀ n ∈ (f.closed source j).nodes, n.Sealed source := by
  refine List.forall_mem_cons.mpr ⟨hself, fun n hn => ?_⟩
  obtain ⟨t, ht, hn⟩ := ParseTree.mem_nodesOf.mp hn
  exact h.nodes t (List.mem_reverse.mp ht) n hn

theorem Went.seals {c : Scope} {f f' : Frame} (h : Went c code f i f' j)
    (hnet : c.net = javaNetwork)
    (hcode : ∀ s ∈ code, s.Keeps (.sealing c.rule)) (hf : f.Sealed c.source c.rule) :
    f'.Sealed c.source c.rule := by
  induction h with
  | nil => exact hf
  | read _ _ ih =>
    obtain ⟨-, hrest⟩ := List.forall_mem_cons.mp hcode
    exact ih hnet hrest (hf.add (fun n hn => by cases hn) _)
  | @call c _ _ rule _ _ _ f inner _ i k _ hinner _ ihinner ih =>
    obtain ⟨hcall, hrest⟩ := List.forall_mem_cons.mp hcode
    cases hcall with
    | call hrule =>
      have hnodes : inner.Sealed c.source rule :=
        ihinner hnet (hnet ▸ sealing_steps rule) ⟨id, fun t ht => by cases ht⟩
      refine ih hnet hrest (hf.add (hnodes.closed fun info cs heq hcloses => ?_) _)
      cases heq
      obtain ⟨hlt, hcloser⟩ := hinner.closes (hnet ▸ fun _ => steps_closing)
        (hnet ▸ steps_closing (hnodes.form hcloses))
      have hspans := hinner.spans (hnet ▸ fun _ => inner_steps)
        (hnet ▸ inner_steps (bne_iff_ne.mp hrule)) (.opened i)
      exact ⟨i, k, hlt, hspans.closed.1, hcloser⟩
  | turn hpicks _ ih => exact ih hnet (keeps_turned hcode hpicks.turns) hf
  | become _ ih =>
    obtain ⟨hbecome, hrest⟩ := List.forall_mem_cons.mp hcode
    cases hbecome with
    | become hform =>
      rw [Limits.sealing, Bool.and_eq_true, Bool.not_eq_true', Bool.not_eq_true'] at hform
      exact ih hnet hrest ⟨fun hcloses => absurd (hform.2.symm.trans hcloses) Bool.false_ne_true,
        hf.nodes⟩
  | @operand c _ _ _ _ _ _ _ op _ f _ i _ hop _ _ ih =>
    obtain ⟨hform, hcode⟩ := keeps_operand hcode hop
    rw [Limits.sealing, Bool.and_eq_true, Bool.not_eq_true', Bool.not_eq_true'] at hform
    refine ih hnet hcode
      ⟨fun hcloses => absurd (hform.2.symm.trans hcloses) Bool.false_ne_true,
        List.forall_mem_singleton.mpr ?_⟩
    refine hf.closed fun info cs heq hcloses => ?_
    cases heq
    exact absurd (hform.1.symm.trans (hf.form hcloses)) Bool.false_ne_true

/-- **Declarations end with a closing token**, in every text that is parsed without complaints. -/
theorem parse_sealed (h : (parse text).complaints = []) :
    ∀ n ∈ (parse text).tree.nodes, n.Sealed (.ofText text) := by
  obtain ⟨f, j, hwent, htree, -⟩ := parse_went h
  rw [htree]
  have hframe := hwent.seals rfl (sealing_steps .compilationUnit) ⟨fun hcloses => hcloses,
    fun t ht => by cases ht⟩
  refine hframe.closed fun info cs heq hcloses => ?_
  cases heq
  cases hframe.form hcloses

/-! ## Lines between tokens -/

/-- A token that stands in a text where it says it does. -/
structure Token.Stands (cs : List Char) (t : Token) : Prop where
  line : t.start.line = 1 + (cs.take t.start.offset).count '\n'
  lexeme : ∃ w, cs.take t.stop = cs.take t.start.offset ++ w ∧ t.stop ≤ cs.length ∧
    Lexicon.Offers t.kind w

theorem stands_of_visible {t : Token} (h : t ∈ visibleTokens text) : t.Stands text.toList := by
  obtain ⟨p, hp, ht⟩ := List.mem_filterMap.mp (List.mem_filter.mp h).1
  obtain ⟨before, w, rest, hstands⟩ := (cuts_pieces text).stands hp
  rw [List.nil_append] at hstands
  rw [hstands.piece] at ht
  have hlength := hstands.length
  cases hscan : Lexing.scan Lexicon.rules (w ++ rest) with
  | stuck n =>
    rw [hscan] at ht
    cases ht
  | lexeme k n =>
    rw [hscan] at ht hlength
    cases ht
    have hoffered := (Lexicon.lexeme_of_scan hscan).offered
    rw [show n = w.length from hlength, List.take_left] at hoffered
    have hbefore : text.toList.take before.length = before := by rw [hstands.text, List.take_left]
    have hthrough : text.toList.take (before.length + w.length) = before ++ w := by
      rw [hstands.text, ← List.append_assoc, ← List.length_append, List.take_left]
    refine ⟨?_, w, ?_, ?_, hoffered⟩
    · simp only [Position.after_start, hbefore]
    · simp only [Token.stop, Position.after_start, hbefore, hthrough]
    · simp only [Token.stop, Position.after_start, hstands.text, List.length_append]
      omega

/-- The tokens of a text come one after the other. -/
theorem Cuts.sorted {before : List Char} {ps : List Piece} (h : Cuts before cs ps) :
    (ps.filterMap Piece.token?).Pairwise (fun a b => a.stop ≤ b.start.offset) ∧
      ∀ t ∈ ps.filterMap Piece.token?, before.length ≤ t.start.offset := by
  induction h with
  | done => exact ⟨.nil, nofun⟩
  | @next before w rest ps _ _ _ ih =>
    obtain ⟨hsorted, hafter⟩ := ih
    rw [List.length_append] at hafter
    have hlater : ∀ t ∈ ps.filterMap Piece.token?, before.length ≤ t.start.offset :=
      fun t ht => Nat.le_trans (Nat.le_add_right _ _) (hafter t ht)
    cases Lexing.scan Lexicon.rules (w ++ rest) with
    | stuck n =>
      rw [List.filterMap_cons_none rfl]
      exact ⟨hsorted, hlater⟩
    | lexeme k n =>
      simp only [pieceAt, List.filterMap_cons, Piece.token?]
      have hstart : (Position.start.after before).offset = before.length := by
        rw [Position.after_start]
      refine ⟨List.pairwise_cons.mpr ⟨fun t ht => ?_, hsorted⟩,
        List.forall_mem_cons.mpr ⟨Nat.le_of_eq hstart.symm, hlater⟩⟩
      simp only [Token.stop, hstart]
      exact hafter t ht

theorem visibleTokens_sorted (text : String) :
    (visibleTokens text).Pairwise fun a b => a.stop ≤ b.start.offset :=
  (cuts_pieces text).sorted.1.sublist List.filter_sublist

theorem line_mono {a b : Token} (ha : a.Stands cs) (hb : b.Stands cs)
    (hle : a.start.offset ≤ b.start.offset) :
    a.start.line ≤ b.start.line := by
  rw [ha.line, hb.line]
  exact Nat.add_le_add_left ((List.take_sublist_take_left hle).count_le _) _

/-- A closing token is a character other than a line feed. -/
theorem count_closer {k : Kind} (h : k.isCloser = true) {w : List Char} (hw : Lexicon.Offers k w) :
    w.count '\n' = 0 := by
  rw [Kind.isCloser, Bool.or_eq_true, beq_iff_eq, beq_iff_eq] at h
  rcases h with rfl | rfl
  · rw [Lexicon.offers_of_spelling rfl hw]
    decide
  · rw [Lexicon.offers_of_spelling rfl hw]
    decide

/-- The text from a token to a closing one has as many line feeds as their lines are apart. -/
theorem lines_between {a b : Token} (ha : a.Stands cs) (hb : b.Stands cs)
    (hle : a.start.offset ≤ b.start.offset) (hcloser : b.kind.isCloser = true) :
    a.start.line + ((cs.take b.stop).drop a.start.offset).count '\n' = b.start.line := by
  obtain ⟨w, hw, hlength, hoffers⟩ := hb.lexeme
  have hsplit : (cs.take b.start.offset).count '\n' = (cs.take a.start.offset).count '\n' +
      ((cs.take b.start.offset).drop a.start.offset).count '\n' := by
    conv_lhs => rw [← List.take_append_drop a.start.offset (cs.take b.start.offset)]
    rw [List.count_append, List.take_take, Nat.min_eq_left hle]
  have hbefore : a.start.offset ≤ (cs.take b.start.offset).length := by
    rw [List.length_take, Nat.min_eq_left (Nat.le_trans (Nat.le_add_right _ _) hlength)]
    exact hle
  rw [ha.line, hb.line, hw, List.drop_append_of_le_length hbefore, List.count_append,
    count_closer hcloser hoffers, hsplit, Nat.add_zero, Nat.add_assoc]

/-! ## Where declarations are -/

/-- A node that stands for the tokens of a text from one to another, which is a closing one. -/
structure ParseTree.Reaches (text : String) (n : ParseTree) (first last : Token) : Prop where
  head : n.leaves.head? = some (.token first)
  tail : n.leaves.getLast? = some (.token last)
  closer : last.kind.isCloser = true
  stands : first.Stands text.toList ∧ last.Stands text.toList
  within : ∀ x, .token x ∈ n.leaves → first.start.offset ≤ x.start.offset ∧
    x.start.offset ≤ last.start.offset ∧
    x.stop ≤ last.stop

theorem getElem_sorted (hij : i ≤ j) (hj : j < (visibleTokens text).length) :
    (visibleTokens text)[i].start.offset ≤ (visibleTokens text)[j].start.offset ∧
      (visibleTokens text)[i].stop ≤ (visibleTokens text)[j].stop := by
  rcases Nat.eq_or_lt_of_le hij with rfl | hlt
  · exact ⟨Nat.le_refl _, Nat.le_refl _⟩
  · have hle := List.pairwise_iff_getElem.mp (visibleTokens_sorted text) i j (by omega) hj hlt
    exact ⟨Nat.le_trans (Nat.le_add_right _ _) hle, Nat.le_trans hle (Nat.le_add_right _ _)⟩

/-- Declarations reach from a token to a closing one. -/
theorem parse_reaches (h : (parse text).complaints = []) {info : NodeInfo} {cs : List ParseTree}
    (hn : .node info cs ∈ (parse text).tree.nodes) (hcloses : info.form.ruleName.closes = true) :
    ∃ last, info.stop = some last ∧ (ParseTree.node info cs).Reaches text info.start last := by
  obtain ⟨i, j, hij, ⟨hstart, hstop, hleaves⟩, hcloser⟩ := parse_sealed h _ hn info cs rfl hcloses
  have hj : j - 1 < (visibleTokens text).length := by
    refine Nat.lt_of_not_le fun hle => ?_
    rw [(Source.kind_ofText text (j - 1)).mpr hle] at hcloser
    cases hcloser
  have hi : i < (visibleTokens text).length := by omega
  have htoken {k : Nat} (hk : k < (visibleTokens text).length) : (Source.ofText text).token k =
      (visibleTokens text)[k] := by
    rw [Source.token_ofText, List.getElem?_eq_getElem hk]
    rfl
  rw [Source.between_ofText text (by omega)] at hleaves
  rw [htoken hi] at hstart
  rw [if_neg (by omega), htoken hj] at hstop
  have hlength : ((visibleTokens text).extract i j).length = j - i := by
    rw [List.extract_eq_take_drop, List.length_take, List.length_drop]
    omega
  have hget {k : Nat} (hk : k < j - i) : ((visibleTokens text).extract i j)[k]? =
      some (visibleTokens text)[i + k] := by
    rw [List.extract_eq_take_drop, List.getElem?_take, if_pos hk, List.getElem?_drop,
      List.getElem?_eq_getElem]
  have hall : (ParseTree.node info cs).leaves = ((visibleTokens text).extract i j).map Leaf.token :=
    hleaves
  refine ⟨_, hstop, ?_, ?_, ?_, ⟨?_, stands_of_visible (List.getElem_mem hj)⟩, fun x hx => ?_⟩
  · rw [hall, hstart, List.head?_map, List.head?_eq_getElem?, hget (by omega)]
    rfl
  · rw [hall, List.getLast?_map, List.getLast?_eq_getElem?, hlength, hget (by omega),
      Option.map_some]
    simp only [show i + (j - i - 1) = j - 1 by omega]
  · rw [Source.kind, htoken hj] at hcloser
    exact hcloser
  · rw [hstart]
    exact stands_of_visible (List.getElem_mem hi)
  · rw [hall] at hx
    obtain ⟨y, hy, heq⟩ := List.mem_map.mp hx
    cases heq
    obtain ⟨k, hk, rfl⟩ := List.mem_iff_getElem.mp hy
    have hk' : k < j - i := hlength ▸ hk
    rw [Option.some.inj ((List.getElem?_eq_getElem hk).symm.trans (hget hk')), hstart]
    exact ⟨(getElem_sorted (Nat.le_add_right i k) (by omega)).1, getElem_sorted (by omega) hj⟩

end Coupling.Java
