import Mathlib
import Coupling.Proofs.Expressions
import Coupling.Trace.Api

/-!
# What templates stand for

A template is made of letters and placeholders (`Part`). The two substitutions put an expression in
the place of each placeholder, and what comes of them is read as these expressions in a row
(`ofText_parts`). So an endpoint fits a template if it is made of a text for each part, in order
(`templates_denote`). A letter is taken for itself only if it is no sign of regular expressions, and
names with such signs stand for other texts, or for none (`literal_names`). How a name is found is
said for every reader of patterns, and what the names stand for, of regular expressions.
-/

namespace Coupling.Trace

open Regex (Accepts oneOrMore)
open Regex.Read (isSign opensCount sequence joined single)

/-- A part of a template. -/
inductive Part where
  | letter (c : Char)
  | int
  | str

namespace Part

/-- A part as it is written in the name of an entry. -/
def source : Part → List Char
  | .letter c => [c]
  | .int => "\x7bint\x7d".toList
  | .str => "\x7bstr\x7d".toList

/-- A part as it is written in a regular expression. -/
def pattern : Part → List Char
  | .letter c => [c]
  | .int => "\\d+".toList
  | .str => "[a-zA-Z0-9]+".toList

/-- The texts a part stands for. -/
def language : Part → Language Char
  | .letter c => {[c]}
  | .int => oneOrMore Text.isDigit
  | .str => oneOrMore Char.isAlphanum

/-- The expression a part is read as. -/
def regex : Part → Regex
  | .letter c => single {} false [.char c]
  | .int => .times 1 none false (single {} false [.digit false])
  | .str => .times 1 none false (single {} false [.range 'a' 'z', .range 'A' 'Z', .range '0' '9'])

theorem accepts_regex (p : Part) : Accepts p.regex p.language := by
  cases p with
  | letter c => exact Regex.accepts_char c
  | int =>
    have hset : CharSet.has ⟨false, [.digit false], .exact⟩ = Text.isDigit := by
      funext c
      simp [CharSet.has, CharTest.holds, Folding.small]
    rw [language, ← hset]
    exact Regex.accepts_oneOrMore _
  | str =>
    have hset : CharSet.has ⟨false, [.range 'a' 'z', .range 'A' 'Z', .range '0' '9'], .exact⟩ =
        Char.isAlphanum := by
      funext c
      simp [CharSet.has, CharTest.holds, Folding.variants, Char.isAlphanum, Char.isAlpha,
        Char.isUpper, Char.isLower, Char.isDigit, Char.le_def]
      ac_rfl
    rw [language, ← hset]
    exact Regex.accepts_oneOrMore _

end Part

/-- A template whose letters are read as themselves. -/
inductive Readable : List Part → Prop
  | nil : Readable []
  | letter {c : Char} {ps : List Part} : isSign c = false →
      (c = '\x7b' → opensCount (ps.flatMap Part.pattern) = false) → Readable ps →
      Readable (.letter c :: ps)
  | int {ps : List Part} : Readable ps → Readable (.int :: ps)
  | str {ps : List Part} : Readable ps → Readable (.str :: ps)

variable {ps : List Part} {old cs : List Char}

/-- The text of a template starts with a letter, a backslash or a bracket. -/
theorem Readable.head_ne (h : Readable ps) {c : Char} (hc : isSign c = true)
    (hpart : c ≠ '\\' ∧ c ≠ '[') :
    (ps.flatMap Part.pattern).head? ≠ some c := by
  cases h with
  | nil => simp
  | letter hletter =>
    intro h
    rw [show _ = c from Option.some.inj h, hc] at hletter
    cases hletter
  | int => exact fun h => hpart.1 (Option.some.inj h).symm
  | str => exact fun h => hpart.2 (Option.some.inj h).symm

/-- The reader takes one part after the other, in at most two steps each. -/
theorem sequence_parts (hps : Readable ps) (fuel : Nat) (items : List Regex) (r : Regex.Reading) :
    (sequence (2 * ps.length + fuel + 1) {} items).run.run
      { r with rest := ps.flatMap Part.pattern } =
      (.ok (joined ((ps.map Part.regex).reverse ++ items)), { r with rest := [] }) := by
  induction hps generalizing fuel items with
  | nil => rfl
  | @letter c ps hc hbrace hps ih =>
    rw [List.map_cons, List.reverse_cons, List.append_assoc, List.length_cons, Nat.mul_succ,
      show 2 * ps.length + 2 + fuel + 1 = 2 * ps.length + (fuel + 1) + 1 + 1 by omega]
    exact (Regex.Read.sequence_letter _ items r _ hc hbrace).trans (ih (fuel + 1) _)
  | @int ps hps ih | @str ps hps ih =>
    rw [List.map_cons, List.reverse_cons, List.append_assoc, List.length_cons, Nat.mul_succ,
      show 2 * ps.length + 2 + fuel + 1 = 2 * ps.length + fuel + 1 + 2 by omega]
    exact (Regex.Read.sequence_plus _ items r _ _ (hps.head_ne (by decide) (by decide))
      (hps.head_ne (by decide) (by decide))).trans (ih fuel _)

/-- The text of a template is read as the expressions of its parts in a row. -/
theorem ofText_parts (hps : Readable ps) :
    Regex.ofText (String.ofList (ps.flatMap Part.pattern)) =
      .ok (joined (ps.map Part.regex).reverse) := by
  have hlength : ps.length ≤ (ps.flatMap Part.pattern).length := by
    clear hps
    induction ps with
    | nil => exact Nat.le_refl 0
    | cons p ps ih =>
      have hp : 1 ≤ p.pattern.length := by
        cases p with
        | letter c => exact Nat.le_refl 1
        | int | str => decide
      rw [List.flatMap_cons, List.length_append, List.length_cons]
      omega
  obtain ⟨fuel, hfuel⟩ : ∃ fuel, 4 * (ps.flatMap Part.pattern).length + 7 = 2 *
      ps.length + fuel + 1 :=
    ⟨4 * (ps.flatMap Part.pattern).length + 6 - 2 * ps.length, by omega⟩
  have hseq := sequence_parts hps fuel [] { rest := [] }
  rw [List.append_nil, ← hfuel] at hseq
  have hleading := Regex.Read.leading_plain (ps.flatMap Part.pattern).length { rest := [] }
    (ps.flatMap Part.pattern) (hps.head_ne (by decide) (by decide))
  rw [Regex.ofText, String.toList_ofList, Regex.Read.whole, Steps.run_bind, hleading]
  show ((Regex.Read.alternatives _ {} >>= _).run.run _).1 = _
  rw [Steps.run_bind, Regex.Read.alternatives, Steps.run_bind, hseq]
  rfl

/-! ## The text of the expression -/

theorem replaceAll_append (new cs : List Char) (h : old ≠ []) :
    replaceAll old new (old ++ cs) = new ++ replaceAll old new cs := by
  obtain ⟨c, old, rfl⟩ := List.exists_cons_of_ne_nil h
  have hfits : (c :: old).isPrefixOf (c :: (old ++ cs)) = true :=
    List.isPrefixOf_iff_prefix.mpr (List.prefix_append (c :: old) cs)
  rw [List.cons_append, replaceAll, if_pos hfits, List.length_cons, Nat.add_sub_cancel,
    List.drop_left]

theorem replaceAll_cons (new : List Char) {c : Char} (h : ¬old <+: c :: cs) :
    replaceAll old new (c :: cs) = c :: replaceAll old new cs := by
  rw [replaceAll, if_neg fun h' => h (List.isPrefixOf_iff_prefix.mp h')]

/-- What does not have the first character of the text looked for is passed. -/
theorem replaceAll_pass {o : Char} {w : List Char} (new cs : List Char) (h : o ∉ w) :
    replaceAll (o :: old) new (w ++ cs) = w ++ replaceAll (o :: old) new cs := by
  induction w with
  | nil => rfl
  | cons c w ih =>
    rw [List.mem_cons, not_or] at h
    rw [List.cons_append, replaceAll_cons new fun h' => h.1 (List.cons_prefix_cons.mp h').1, ih h.2,
      List.cons_append]

/-- Nothing is replaced where there is nothing to replace. -/
theorem replaceAll_eq_self (new : List Char) (h : ¬old <:+: cs) : replaceAll old new cs = cs := by
  induction cs with
  | nil => rw [replaceAll]
  | cons c cs ih => rw [replaceAll_cons new fun h' => h h'.isInfix, ih fun h' =>
    h (List.infix_cons h')]

theorem templateText_eq_self {name : String}
    (h : ∀ p ∈ placeholders, ¬p.1.toList <:+: name.toList) :
    templateText name = name := by
  have hint := replaceAll_eq_self "\\d+".toList (h _ List.mem_cons_self)
  have hstr := replaceAll_eq_self "[a-zA-Z0-9]+".toList
    (h _ (List.mem_cons_of_mem _ List.mem_cons_self))
  simp only [templateText, placeholders, List.foldl_cons, List.foldl_nil]
  rw [hint, hstr, String.ofList_toList]

/-- The substitutions leave letters alone and do not meddle with each other. -/
theorem templateText_parts (h : ∀ c, Part.letter c ∈ ps → c ≠ '\x7b') :
    templateText (String.ofList (ps.flatMap Part.source)) =
      String.ofList (ps.flatMap Part.pattern) := by
  simp only [templateText, placeholders, List.foldl_cons, List.foldl_nil, String.toList_ofList]
  congr 1
  induction ps with
  | nil => simp [replaceAll]
  | cons p ps ih =>
    rw [List.flatMap_cons, List.flatMap_cons, ← ih fun c hc => h c (List.mem_cons_of_mem p hc)]
    cases p with
    | letter c =>
      have hc : '\x7b' ∉ [c] := fun hmem => h c List.mem_cons_self (List.mem_singleton.mp hmem).symm
      exact (congrArg _ (replaceAll_pass _ _ hc)).trans (replaceAll_pass _ _ hc)
    | int =>
      exact (congrArg _ (replaceAll_append _ _ (by decide))).trans (replaceAll_pass _ _ (by decide))
    | str =>
      have hint : replaceAll "\x7bint\x7d".toList "\\d+".toList
          ("\x7bstr\x7d".toList ++ ps.flatMap Part.source) =
            "\x7bstr\x7d".toList ++ replaceAll "\x7bint\x7d".toList "\\d+".toList
            (ps.flatMap Part.source) :=
        (replaceAll_cons _ (show ¬['\x7b', 'i', 'n', 't', '\x7d'] <+: '\x7b' :: 's' ::
          _ by simp)).trans
          (congrArg _ (replaceAll_pass (w := "str\x7d".toList) _ _ (by decide)))
      exact (congrArg _ hint).trans (replaceAll_append _ _ (by decide))

/-! ## The entry that is found -/

section

variable [PatternReader] {α : Type} {api : α → Json} {name : α → String} {entries : List α}

theorem matchApi_arr (apis : List Json) (name : Json) :
    matchApi (.arr apis) name = firstFit name apis := rfl

/-- One entry is asked after the other: for its name, then for the expression of its name. -/
theorem firstFit_cons {entry : Json} {known : String}
    (h : Data.member entry "name" = .ok (.str known)) (x : String) (apis : List Json) :
    firstFit (.str x) (entry :: apis) =
      if known = x then .ok (some entry)
      else PatternReader.read (templateText known) >>= fun matched =>
        if matched x then .ok (some entry) else firstFit (.str x) apis := by
  rw [firstFit, h]
  show (if Data.same (.str known) (.str x) then _ else fits (.str x) (.str known) >>= _) = _
  rw [Data.same, fits, template]
  by_cases hsame : known = x
  · rw [if_pos hsame, if_pos (beq_iff_eq.mpr hsame)]
    rfl
  · rw [if_neg hsame, if_neg fun h => hsame (beq_iff_eq.mp h)]
    show (PatternReader.read (templateText known) >>= _) >>= _ = _
    cases PatternReader.read (templateText known) with
    | error f | ok matched => rfl

/-- If every name is read, the first entry is found whose name is the endpoint or matches it. -/
theorem firstFit_eq_find (matched : α → String → Bool)
    (hname : ∀ e ∈ entries, Data.member (api e) "name" = .ok (.str (name e)))
    (hread : ∀ e ∈ entries, PatternReader.read (templateText (name e)) = .ok (matched e))
    (x : String) :
    firstFit (.str x) (entries.map api) =
      .ok ((entries.find? fun e => name e == x || matched e x).map api) := by
  induction entries with
  | nil => rfl
  | cons e entries ih =>
    obtain ⟨hname, hnames⟩ := List.forall_mem_cons.mp hname
    obtain ⟨hread, hreads⟩ := List.forall_mem_cons.mp hread
    rw [List.map_cons, firstFit_cons hname, hread, ih hnames hreads, List.find?_cons]
    by_cases hsame : name e = x
    · simp [hsame]
    · cases hfit : matched e x <;> simp [hsame, beq_false_of_ne hsame, hfit, bind, Except.bind]

/-- If no entry is found, every name was read. -/
theorem read_of_firstFit_none (hname : ∀ e ∈ entries, Data.member (api e) "name" =
    .ok (.str (name e))) {x : String}
    (h : firstFit (.str x) (entries.map api) = .ok none) :
    ∀ e ∈ entries, ∃ matched, PatternReader.read (templateText (name e)) = .ok matched := by
  induction entries with
  | nil => exact fun e he => by cases he
  | cons e entries ih =>
    obtain ⟨hname, hnames⟩ := List.forall_mem_cons.mp hname
    rw [List.map_cons, firstFit_cons hname] at h
    split at h
    · cases h
    · obtain ⟨matched, hread, h⟩ := Steps.except_bind_eq_ok.mp h
      split at h
      · cases h
      · exact List.forall_mem_cons.mpr ⟨⟨matched, hread⟩, ih hnames h⟩

end

theorem read_regex {text : String} {r : Regex} (h : Regex.ofText text = .ok r) :
    PatternReader.read text = .ok r.matchesAll := congrArg (Except.map Regex.matchesAll) h

/-! ## Templates of letters and placeholders -/

/-- The texts of a template: its name, and whatever has a text for each of its parts in order. -/
def Denotes (ps : List Part) (x : String) : Prop :=
  x.toList = ps.flatMap Part.source ∨ x.toList ∈ (ps.map Part.language).prod

/-- The characters that the names of endpoints are made of. -/
def isPathChar (c : Char) : Bool := c.isAlphanum || ['/', ':', '-', '_'].contains c

theorem isSign_of_path {c : Char} (h : isPathChar c = true) : isSign c = false ∧ c ≠ '\x7b' := by
  refine ⟨Bool.eq_false_iff.mpr fun hsign => ?_, fun hbrace => ?_⟩
  · simp only [isSign, List.contains_eq_mem, List.mem_cons, List.not_mem_nil, or_false,
      decide_eq_true_iff] at hsign
    rcases hsign with rfl | rfl | rfl | rfl | rfl | rfl | rfl | rfl | rfl | rfl | rfl <;>
      exact absurd h (by decide)
  · subst hbrace
    exact absurd h (by decide)

theorem readable_of_path (h : ∀ c, Part.letter c ∈ ps → isPathChar c = true) : Readable ps := by
  induction ps with
  | nil => exact .nil
  | cons p ps ih =>
    have hps := ih fun c hc => h c (List.mem_cons_of_mem p hc)
    cases p with
    | letter c =>
      obtain ⟨hsign, hbrace⟩ := isSign_of_path (h c List.mem_cons_self)
      exact .letter hsign (fun hc => absurd hc hbrace) hps
    | int => exact .int hps
    | str => exact .str hps

/-- **Templates match exactly what they denote.** In a configuration whose names are made of letters
and placeholders, the first entry is found whose name is the endpoint, or becomes the endpoint if
one or more decimal digits are put for each `int` and one or more letters or digits for each `str`.
None is found if there is no such entry. -/
theorem templates_denote (config : List (Json × List Part))
    (hnames : ∀ e ∈ config, Data.member e.1 "name" =
      .ok (.str (String.ofList (e.2.flatMap Part.source))))
    (hletters : ∀ e ∈ config, ∀ c, Part.letter c ∈ e.2 → isPathChar c = true) (x : String) :
    (∀ before e after, config = before ++ e :: after → Denotes e.2 x →
      (∀ e' ∈ before, ¬Denotes e'.2 x) →
      matchApi (.arr (config.map (·.1))) (.str x) = .ok (some e.1)) ∧
    (matchApi (.arr (config.map (·.1))) (.str x) = .ok none ↔ ∀ e ∈ config, ¬Denotes e.2 x) := by
  obtain ⟨fits, hfind, hfits⟩ : ∃ fits : Json × List Part → Bool,
      matchApi (.arr (config.map (·.1))) (.str x) = .ok ((config.find? fits).map (·.1)) ∧
      ∀ e, fits e = true ↔ Denotes e.2 x := by
    refine ⟨_, firstFit_eq_find (fun e => (joined (e.2.map Part.regex).reverse).matchesAll) hnames
      (fun e he => ?_) x, fun e => ?_⟩
    · rw [templateText_parts fun c hc => (isSign_of_path (hletters e he c hc)).2]
      exact read_regex (ofText_parts (readable_of_path (hletters e he)))
    · rw [Bool.or_eq_true, beq_iff_eq, (Regex.accepts_joined Part.accepts_regex e.2).matchesAll_iff,
        Denotes, ← String.toList_inj, String.toList_ofList, eq_comm]
  rw [hfind]
  refine ⟨fun before e after hconfig hdenotes hbefore => ?_, by simp [hfits]⟩
  have hfound : config.find? fits = some e := by
    refine List.find?_eq_some_iff_append.mpr ⟨(hfits e).mpr hdenotes, before, after, hconfig,
      fun e' he' => ?_⟩
    rw [Bool.not_eq_true', Bool.eq_false_iff]
    exact fun h => hbefore e' he' ((hfits e').mp h)
  rw [hfound]
  rfl

/-- Two placeholders next to each other share an endpoint out among them. -/
theorem adjacent_placeholders_denote :
    let entry : Json := .obj [("name", .str "/a\x7bint\x7d\x7bstr\x7d")]
    let parts : List Part := [.letter '/', .letter 'a', .int, .str]
    (∀ e ∈ [(entry, parts)], Data.member e.1 "name" =
      .ok (.str (String.ofList (e.2.flatMap Part.source)))) ∧
      (∀ e ∈ [(entry, parts)], ∀ c, Part.letter c ∈ e.2 → isPathChar c = true) ∧
      matchApi (.arr [entry]) (.str "/a12") = .ok (some entry) := by
  intro entry parts
  have hname : ∀ e ∈ [(entry, parts)], Data.member e.1 "name" =
      .ok (.str (String.ofList (e.2.flatMap Part.source))) := by
    rintro e he
    rw [List.mem_singleton.mp he]
    rfl
  have hletters : ∀ e ∈ [(entry, parts)], ∀ c, Part.letter c ∈ e.2 → isPathChar c = true := by
    simp [parts, isPathChar]
  have hdenotes : Denotes parts "/a12" :=
    .inr ⟨['/'], rfl, _, ⟨['a'], rfl, _, ⟨['1'], ⟨by simp, List.forall_mem_singleton.mpr rfl⟩,
      _, ⟨['2'], ⟨by simp, List.forall_mem_singleton.mpr rfl⟩, [], rfl, rfl⟩, rfl⟩, rfl⟩, rfl⟩
  exact ⟨hname, hletters, (templates_denote [(entry, parts)] hname hletters "/a12").1 [] _ [] rfl
    hdenotes (by simp)⟩

/-! ## Names without placeholders -/

/-- Whether a text has no sign of regular expressions and no brace that opens a count. -/
def isLiteral : List Char → Bool
  | [] => true
  | c :: cs => !isSign c && !(c == '\x7b' && opensCount cs) && isLiteral cs

theorem flatMap_pattern_letter (cs : List Char) :
    (cs.map Part.letter).flatMap Part.pattern = cs := by
  rw [List.flatMap_map]
  exact List.flatMap_singleton' cs

theorem readable_of_literal (h : isLiteral cs = true) : Readable (cs.map Part.letter) := by
  induction cs with
  | nil => exact .nil
  | cons c cs ih =>
    simp only [isLiteral, Bool.and_eq_true, Bool.not_eq_true', Bool.and_eq_false_imp, beq_iff_eq]
      at h
    exact .letter h.1.1 (fun hc => (flatMap_pattern_letter cs).symm ▸ h.1.2 hc) (ih h.2)

theorem mem_prod_letters {u : List Char} : u ∈ ((cs.map Part.letter).map Part.language).prod ↔
    u = cs := by
  induction cs generalizing u with
  | nil => exact Language.mem_one u
  | cons c cs ih =>
    rw [List.map_cons, List.map_cons, List.prod_cons, Language.mem_mul]
    constructor
    · rintro ⟨_, rfl, v, hv, rfl⟩
      rw [ih.mp hv]
      rfl
    · rintro rfl
      exact ⟨[c], rfl, cs, ih.mpr rfl, rfl⟩

/-- A literal name is read, and matches itself only. -/
theorem ofText_literal {name : String} (h : isLiteral name.toList = true) :
    ∃ r, Regex.ofText name = .ok r ∧ ∀ x, r.matchesAll x = true → x = name := by
  have hread := ofText_parts (readable_of_literal h)
  rw [flatMap_pattern_letter, String.ofList_toList] at hread
  refine ⟨_, hread, fun x hx => String.toList_inj.mp ?_⟩
  exact mem_prod_letters.mp (((Regex.accepts_joined Part.accepts_regex _).matchesAll_iff x).mp hx)

section

variable [PatternReader]

/-- Every endpoint gets an answer, and an entry just if it is the name of one. -/
def FoundByName (config : List (Json × String)) : Prop :=
  ∀ x, ∃ found, matchApi (.arr (config.map (·.1))) (.str x) = .ok found ∧
    (found.isSome = true ↔ ∃ e ∈ config, e.2 = x)

variable {config : List (Json × String)}
  (hnames : ∀ e ∈ config, Data.member e.1 "name" = .ok (.str e.2))
  (hplain : ∀ e ∈ config, ∀ p ∈ placeholders, ¬p.1.toList <:+: e.2.toList)
include hnames hplain

/-- With every name read, an entry is found just for the names and for what they match. -/
theorem found_iff {matched : Json × String → String → Bool}
    (hread : ∀ e ∈ config, PatternReader.read e.2 = .ok (matched e)) (x : String) :
    ∃ found, matchApi (.arr (config.map (·.1))) (.str x) = .ok found ∧
      (found.isSome = true ↔ ∃ e ∈ config, e.2 = x ∨ matched e x = true) := by
  refine ⟨_, firstFit_eq_find matched hnames (fun e he => ?_) x, ?_⟩
  · rw [templateText_eq_self (hplain e he), hread e he]
  · simp only [Option.isSome_map, List.find?_isSome, Bool.or_eq_true, beq_iff_eq]

/-- If names alone are found, every name is read: a text that is no name is asked of all of them. -/
theorem FoundByName.read (h : FoundByName config) :
    ∀ e ∈ config, ∃ matched, PatternReader.read e.2 = .ok matched := by
  obtain ⟨u, hu⟩ := Infinite.exists_notMem_finset (config.map fun e => e.2.toList).toFinset
  obtain ⟨found, hmatch, hfound⟩ := h (String.ofList u)
  cases found with
  | some entry =>
    obtain ⟨e, he, hx⟩ := hfound.mp rfl
    exact absurd (List.mem_toFinset.mpr
      (List.mem_map.mpr ⟨e, he, by rw [hx, String.toList_ofList]⟩)) hu
  | none =>
    intro e he
    have hread := read_of_firstFit_none hnames hmatch e he
    rwa [templateText_eq_self (hplain e he)] at hread

/-- Names alone are found just if all of them are read and match nothing but names. -/
theorem foundByName_iff :
    FoundByName config ↔ ∀ e ∈ config, ∃ matched, PatternReader.read e.2 = .ok matched ∧
      ∀ x, matched x = true → ∃ e' ∈ config, e'.2 = x := by
  constructor
  · intro h
    choose! matched hread using FoundByName.read hnames hplain h
    refine fun e he => ⟨matched e, hread e he, fun x hx => ?_⟩
    obtain ⟨found, hmatch, hname⟩ := h x
    obtain ⟨found', hmatch', hsome⟩ := found_iff hnames hplain hread x
    cases hmatch.symm.trans hmatch'
    exact hname.mp (hsome.mpr ⟨e, he, .inr hx⟩)
  · intro h x
    choose! matched hread hself using h
    obtain ⟨found, hmatch, hsome⟩ := found_iff hnames hplain hread x
    refine ⟨found, hmatch, hsome.trans ⟨?_, ?_⟩⟩
    · rintro ⟨e, he, hx | hx⟩
      · exact ⟨e, he, hx⟩
      · exact hself e he x hx
    · rintro ⟨e, he, hx⟩
      exact ⟨e, he, .inl hx⟩

end

/-- **Names without placeholders are not taken literally.** However patterns are read, the names are
found by name alone just if every name is a well-formed pattern that matches nothing but names of
the configuration. With regular expressions, names without their signs, and without braces that open
a count, are of this kind. -/
theorem literal_names (config : List (Json × String))
    (hnames : ∀ e ∈ config, Data.member e.1 "name" = .ok (.str e.2))
    (hplain : ∀ e ∈ config, ∀ p ∈ placeholders, ¬p.1.toList <:+: e.2.toList) :
    (∀ [PatternReader], FoundByName config ↔ ∀ e ∈ config, ∃ matched,
      PatternReader.read e.2 = .ok matched ∧
      ∀ x, matched x = true → ∃ e' ∈ config, e'.2 = x) ∧
    ((∀ e ∈ config, isLiteral e.2.toList = true) → @FoundByName regexReader config) := by
  refine ⟨foundByName_iff hnames hplain, fun hliteral => (foundByName_iff hnames hplain).mpr
    fun e he => ?_⟩
  obtain ⟨r, hread, hself⟩ := ofText_literal (hliteral e he)
  exact ⟨r.matchesAll, read_regex hread, fun x hx => ⟨e, he, (hself x hx).symm⟩⟩

/-- A brace before a word opens no count and stands for itself. -/
theorem braced_name_found_by_name :
    let config : List (Json × String) :=
    [(.obj [("name", .str "/users/\x7bid\x7d")], "/users/\x7bid\x7d")]
    (∀ e ∈ config, Data.member e.1 "name" = .ok (.str e.2)) ∧
      (∀ e ∈ config, ∀ p ∈ placeholders, ¬p.1.toList <:+: e.2.toList) ∧
      @FoundByName regexReader config := by
  intro config
  have hnames : ∀ e ∈ config, Data.member e.1 "name" = .ok (.str e.2) := by
    intro e he
    rw [List.mem_singleton.mp he]
    rfl
  have hplain : ∀ e ∈ config, ∀ p ∈ placeholders, ¬p.1.toList <:+: e.2.toList := by
    intro e he
    rw [List.mem_singleton.mp he]
    decide
  refine ⟨hnames, hplain, (literal_names config hnames hplain).2 fun e he => ?_⟩
  rw [List.mem_singleton.mp he]
  decide

/-- A dot merges another endpoint, and an open parenthesis ends in a fault. -/
theorem signs_merge_or_fail :
    let dotted : Json := .obj [("name", .str "/v1.0")]
    let opened : Json := .obj [("name", .str "/files/(")]
    (∀ name ∈ ["/v1.0", "/files/("], ∀ p ∈ placeholders, ¬p.1.toList <:+: name.toList) ∧
      matchApi (.arr [dotted]) (.str "/v1x0") = .ok (some dotted) ∧
      matchApi (.arr [opened]) (.str "/files") = .error .badPattern := by
  intro dotted opened
  have hplain : ∀ name ∈ ["/v1.0", "/files/("], ∀ p ∈ placeholders,
    ¬p.1.toList <:+: name.toList := by decide
  obtain ⟨r, hread, hfits⟩ : ∃ r, Regex.ofText "/v1.0" = .ok r ∧ r.matchesAll "/v1x0" = true :=
    ⟨_, rfl, by decide +kernel⟩
  have hfault : PatternReader.read "/files/(" = .error .badPattern := rfl
  refine ⟨hplain, ?_, ?_⟩
  · rw [matchApi_arr, firstFit_cons rfl, if_neg (by decide),
      templateText_eq_self (hplain _ (by decide)), read_regex hread]
    exact if_pos hfits
  · rw [matchApi_arr, firstFit_cons rfl, if_neg (by decide),
      templateText_eq_self (hplain _ (by decide)), hfault]
    rfl

end Coupling.Trace
