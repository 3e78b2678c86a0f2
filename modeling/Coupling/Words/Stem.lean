/-!
# Word stems

Porter's stemmer with the usual extensions: a list of irregular forms, words of one or two letters
left alone, `ies` and `ied` shortened to `ie` in words of four letters, and a few more suffixes.

In every step the first suffix of the step's list that a word ends in decides, whether or not its
condition holds.
-/

namespace Coupling.Words

/-- Words whose stem follows no rule. -/
def irregular : List (String × String) := [
  ("sky", "sky"), ("skies", "sky"), ("dying", "die"), ("lying", "lie"), ("tying", "tie"),
  ("news", "news"), ("innings", "inning"), ("inning", "inning"), ("outings", "outing"),
  ("outing", "outing"), ("cannings", "canning"), ("canning", "canning"), ("howe", "howe"),
  ("proceed", "proceed"), ("exceed", "exceed"), ("succeed", "succeed")]

def isVowel (c : Char) : Bool := c == 'a' || c == 'e' || c == 'i' || c == 'o' || c == 'u'

/-- Which letters are consonants; a `y` is one at the start and after a vowel. -/
def consonantsFrom (afterConsonant : Bool) : List Char → List Bool
  | [] => []
  | c :: cs =>
    let consonant := if isVowel c then false else if c == 'y' then !afterConsonant else true
    consonant :: consonantsFrom consonant cs

def consonants (w : List Char) : List Bool := consonantsFrom false w

/-- How often a consonant follows a vowel. -/
def turns : List Bool → Nat
  | a :: b :: rest => (if !a && b then 1 else 0) + turns (b :: rest)
  | _ => 0

/-- The measure of a stem: how often a consonant follows a vowel. -/
def measure (w : List Char) : Nat := turns (consonants w)

def hasMeasure (w : List Char) : Bool := 0 < measure w

def hasVowel (w : List Char) : Bool := (consonants w).any (!·)

def endsInConsonant (w : List Char) : Bool := (consonants w).getLast? == some true

/-- Whether a word ends in a consonant written twice. -/
def endsDouble (w : List Char) : Bool :=
  match w.reverse with
  | a :: b :: _ => a == b && endsInConsonant w
  | _ => false

/-- Whether a word ends in consonant, vowel, consonant, or is a vowel and a consonant. -/
def endsShort (w : List Char) : Bool :=
  match (consonants w).reverse, w.reverse with
  | true :: false :: true :: _, c :: _ => !(c == 'w' || c == 'x' || c == 'y')
  | [true, false], _ => true
  | _, _ => false

/-- A suffix, what takes its place, and the condition on what stands before it. -/
structure SuffixRule where
  suffix : List Char
  replacement : List Char
  condition : List Char → Bool

/-- The word without a suffix. -/
def without (w suffix : List Char) : List Char := w.take (w.length - suffix.length)

/-- The first rule whose suffix a word ends in decides. -/
def applyRules : List SuffixRule → List Char → List Char
  | [], w => w
  | r :: rs, w =>
    if r.suffix.isSuffixOf w then
      let stem := without w r.suffix
      if r.condition stem then stem ++ r.replacement else w
    else applyRules rs w

/-- Suffixes with their replacements under one condition. -/
def rulesWith (condition : List Char → Bool) (pairs : List (String × String)) : List SuffixRule :=
  pairs.map fun (s, r) => ⟨s.toList, r.toList, condition⟩

/-- Plurals. -/
def plural (w : List Char) : List Char :=
  if "ies".toList.isSuffixOf w && w.length == 4 then without w "s".toList
  else applyRules (rulesWith (fun _ => true) [("sses", "ss"), ("ies", "i"), ("ss", "ss"),
    ("s", "")]) w

/-- Mends a stem from which `ed` or `ing` was taken. -/
def mend (stem : List Char) : List Char :=
  let last := stem.getLast?.toList
  let single := !(last == ['l'] || last == ['s'] || last == ['z'])
  if ["at", "bl", "iz"].any fun s => s.toList.isSuffixOf stem then stem ++ ['e']
  else if endsDouble stem then (if single then without stem last else stem)
  else if "*d".toList.isSuffixOf stem then without stem "*d".toList ++ ['d']
  else if measure stem == 1 && endsShort stem then stem ++ ['e']
  else stem

/-- Past forms and gerunds. -/
def pastOrGerund (w : List Char) : List Char :=
  if "ied".toList.isSuffixOf w then without w (if w.length == 4 then "d".toList else "ed".toList)
  else if "eed".toList.isSuffixOf w then
    if hasMeasure (without w "eed".toList) then without w "d".toList else w
  else
    match ["ed".toList, "ing".toList].find? fun s => s.isSuffixOf w && hasVowel (without w s) with
    | some s => mend (without w s)
    | none => w

/-- A final `y` after a consonant that is not the first letter. -/
def finalY : List Char → List Char :=
  applyRules [⟨['y'], ['i'], fun stem => 1 < stem.length && endsInConsonant stem⟩]

/-- Double suffixes. -/
def doubleSuffix (w : List Char) : List Char :=
  let w := if "alli".toList.isSuffixOf w && hasMeasure (without w "alli".toList)
    then without w "li".toList else w
  let pairs := [("ational", "ate"), ("tional", "tion"), ("enci", "ence"), ("anci", "ance"),
    ("izer", "ize"), ("bli", "ble"), ("alli", "al"), ("entli", "ent"), ("eli", "e"),
    ("ousli", "ous"), ("ization", "ize"), ("ation", "ate"), ("ator", "ate"), ("alism", "al"),
    ("iveness", "ive"), ("fulness", "ful"), ("ousness", "ous"), ("aliti", "al"), ("iviti", "ive"),
    ("biliti", "ble"), ("fulli", "ful")]
  let logi : SuffixRule := ⟨"logi".toList, "log".toList, fun stem => hasMeasure (stem ++ ['l'])⟩
  applyRules (rulesWith hasMeasure pairs ++ [logi]) w

/-- Suffixes that make adjectives and nouns. -/
def derived : List Char → List Char :=
  applyRules (rulesWith hasMeasure [("icate", "ic"), ("ative", ""), ("alize", "al"),
    ("iciti", "ic"), ("ical", "ic"), ("ful", ""), ("ness", "")])

/-- Suffixes taken off a long stem. -/
def taken : List Char → List Char :=
  let long (stem : List Char) : Bool := 1 < measure stem
  let off (suffixes : List String) := rulesWith long (suffixes.map fun s => (s, ""))
  let ion : SuffixRule :=
    ⟨"ion".toList, [], fun stem => long stem &&
      (stem.getLast? == some 's' || stem.getLast? == some 't')⟩
  applyRules (off ["al", "ance", "ence", "er", "ic", "able", "ible", "ant", "ement", "ment",
    "ent"] ++ [ion] ++
    off ["ou", "ism", "ate", "iti", "ous", "ive", "ize"])

/-- A final `e`. -/
def finalE (w : List Char) : List Char :=
  let stem := without w ['e']
  if w.getLast? == some 'e' && (1 < measure stem || (measure stem == 1 && !endsShort stem))
    then stem else w

/-- A final double `l`. -/
def finalLl (w : List Char) : List Char :=
  if "ll".toList.isSuffixOf w && 1 < measure (without w ['l']) then without w ['l'] else w

/-- The stem of a word in lower case. -/
def stem (w : String) : String :=
  match irregular.lookup w with
  | some s => s
  | none =>
    if w.length ≤ 2 then w
    else String.ofList (finalLl
      (finalE (taken (derived (doubleSuffix (finalY (pastOrGerund (plural w.toList))))))))

end Coupling.Words
