import Coupling.Project.ClassText
import Coupling.Project.Profiler

/-!
# Analyses of a directory

An analyser finds the Java files below a path and makes a profile and the class texts of them.
-/

namespace Coupling.Project

/-- A path, the files below it and what was made of them. -/
structure Analyzer where
  path : Option String := none
  files : Option (List String) := some []
  profiler : Option Profiler := none
  texts : Option TermTexts := none
  /-- Whether calls at run time were asked for after a profile. -/
  dynamic : Bool := false
deriving Inhabited

namespace Analyzer

/-- Runs a step of a part of an analyser, which is kept whether or not the step succeeds. -/
def within {τ : Type} (part : τ) (keep : τ → Analyzer → Analyzer) (step : Action τ Unit) :
    Action Analyzer Unit := do
  let s ← get
  let (result, inner) := step.run.run ⟨part, s.shared⟩
  set (⟨keep inner.self s.self, inner.shared⟩ : Scene Analyzer)
  liftExcept result

/-- Finds the files below the path. -/
def findFiles (fs : Files) : Action Analyzer Unit := do
  match (← Action.self).path with
  | none => throw .noPath
  | some p => Action.change fun a => { a with files := some (fs.javaFiles p) }

/-- Sets the path and finds the files below it. -/
def setPath (fs : Files) (path : Option String) : Action Analyzer Unit := do
  Action.change fun a => { a with path := path }
  findFiles fs

/-- The files, found first if there are none yet. -/
def theFiles (fs : Files) : Action Analyzer (List String) := do
  if (← Action.self).files.isNone then findFiles fs
  return (← Action.self).files.getD []

/-- Makes a profile of the files. -/
def profile (fs : Files) : Action Analyzer Unit := do
  let files ← theFiles fs
  let (p, shared) := Profiler.new files (← Action.shared)
  Action.share fun _ => shared
  within p (fun p a => { a with profiler := some p }) (Profiler.profile Java.parse fs false)

/-- Makes the class texts of the files. -/
def describe (fs : Files) (stopWords : List String) : Action Analyzer Unit := do
  let files ← theFiles fs
  within { files } (fun t a => { a with texts := some t })
    (TermTexts.addAll Java.parse fs stopWords)

/-- Asks for the calls at run time, which need a profile. -/
def addDynamic : Action Analyzer Unit :=
  Action.change fun a => { a with dynamic := a.dynamic || a.profiler.isSome }

/-- A heading in bold green after an empty line. -/
def heading (title : String) : String := "\n\x1b[1;32m======" ++ title ++ "======\x1b[0m"

/-- Prints the profile's matrix and that of the texts. -/
def output : Action Analyzer Unit := do
  Action.say (heading "Structure Interaction Matrix")
  match (← Action.self).profiler with
  | none => throw (.absent "print_interaction_matrix")
  | some p => within p (fun p a => { a with profiler := some p }) Profiler.print
  Action.say (heading "TF-IDF Matrix")
  match (← Action.self).texts with
  | none => throw (.absent "print_tfidf_matrix")
  | some t => if t.ready then Action.say "<tfidf>" else throw (.absent "toarray")

end Analyzer

end Coupling.Project
