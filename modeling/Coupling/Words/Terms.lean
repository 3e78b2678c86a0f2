import Coupling.Text.Blank
import Coupling.Text.Lowercase
import Coupling.Words.Stem

/-!
# Terms of a text

A text is reduced to its terms: the stems of its words in lower case, without the stop words. How
words are stemmed is given, by default as in `Words.stem`.
-/

namespace Coupling.Words

/-- The stems of the words of a text that are not stop words. -/
def terms (stopWords : List String) (text : String) (stemmer : String → String := stem) :
    List String :=
  ((Text.words (Text.lower text)).filter fun w => !stopWords.contains w).map stemmer

/-- The terms of a text with one blank between them. -/
def reduce (stopWords : List String) (text : String) (stemmer : String → String := stem) : String :=
  " ".intercalate (terms stopWords text stemmer)

end Coupling.Words
