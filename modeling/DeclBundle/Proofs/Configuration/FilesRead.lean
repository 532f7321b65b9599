import DeclBundle.Configuration.Inputs
import DeclBundle.Proofs.Files.Alike
set_option autoImplicit false

/-!
# The project files that are read

Reading a project opens its file and those that it extends, up to the first one that fails.  Of all
other files only where they stand can matter, as a name that is extended or as a path that a pattern
finds, and not what they hold (`Project.load_eq`).
-/

namespace DeclBundle.Configuration

open Data
open DeclBundle.Files (FileTree Place Way)
open DeclBundle.Files.FileTree (Alike)

/-! ## The files that are opened -/

namespace Merged

/-- What is opened for names that a file extends: what is opened for the file that each name leads to,
up to the first that leads to none or to one that cannot be read. -/
def filesReadFor (resolve : String → Except DeclBundle.Fault Location)
    (read : Location → Except DeclBundle.Fault Merged) (opened : Location → List Location) :
    List String → List Location
  | [] => []
  | name :: names =>
    match resolve name with
    | .error _ => []
    | .ok base =>
      opened base ++
        match read base with
        | .error _ => []
        | .ok _ => filesReadFor resolve read opened names

/-- What is opened for the members of a file, if it has an object. -/
def filesReadBehind (resolve : String → Except DeclBundle.Fault Location)
    (read : Location → Except DeclBundle.Fault Merged) (opened : Location → List Location) :
    Except DeclBundle.Fault (List (Value × Value)) → List Location
  | .error _ => []
  | .ok ms => filesReadFor resolve read opened (Value.memberTexts ms "extends")

/-- The project files that are opened to read one while those of a chain are being read, at most
`depth` deep. -/
def filesReadUpTo (files : FileTree) (place : Place) :
    Nat → List Location → Location → List Location
  | 0, _, _ => []
  | depth + 1, chain, file =>
    if chain.contains file then []
    else
      file ::
        filesReadBehind (resolveExtends files place file.parent)
          (readUpTo files place depth (chain ++ [file]))
          (filesReadUpTo files place depth (chain ++ [file])) (projectMembers files place file)

/-- The project files that are opened to read one, in order. -/
def filesRead (files : FileTree) (place : Place) (file : Location) : List Location :=
  filesReadUpTo files place (files.entries.length + 2) [] file

end Merged

/-! ## What does not matter -/

variable {t t' : FileTree} {out : Way} {place : Place} {file directory : Location}

theorem projectMembers_eq (h : Alike out t t') (hfile : t.way place file.path ≠ .ok out) :
    projectMembers t' place file = projectMembers t place file := by
  unfold projectMembers
  rw [h.read_eq hfile]

theorem firstFile?_eq (h : Alike out t t') (ls : List Location) :
    firstFile? t' place ls = firstFile? t place ls := by
  induction ls with
  | nil => rfl
  | cons l ls ih => simp only [firstFile?, h.sameKinds.isFile_eq, ih]

theorem firstExtendsFile?_eq (h : Alike out t t') (candidates : List Location) :
    firstExtendsFile? t' place candidates = firstExtendsFile? t place candidates := by
  induction candidates with
  | nil => rfl
  | cons candidate candidates ih => simp only [firstExtendsFile?, extendsFile?, firstFile?_eq h, ih]

/-- A name that is extended leads to the same file. -/
theorem resolveExtends_eq (h : Alike out t t') (name : String) :
    resolveExtends t' place directory name = resolveExtends t place directory name := by
  simp only [resolveExtends, firstExtendsFile?_eq h]

namespace Merged

/-- What names give is the same if it is for each of the files that are read for them. -/
theorem foldlM_eq {resolve : String → Except DeclBundle.Fault Location}
    {read read' : Location → Except DeclBundle.Fault Merged} {opened : Location → List Location}
    (hread : ∀ base, (∀ l ∈ opened base, t.way place l.path ≠ .ok out) → read' base = read base)
    {names : List String} (inherited : Merged)
    (hopened : ∀ l ∈ filesReadFor resolve read opened names, t.way place l.path ≠ .ok out) :
    names.foldlM (fun merged name => do
        let base ← resolve name
        return merged ++ (← read' base)) inherited =
      names.foldlM (fun merged name => do
        let base ← resolve name
        return merged ++ (← read base)) inherited := by
  induction names generalizing inherited with
  | nil => rfl
  | cons name names ih =>
    rw [filesReadFor] at hopened
    simp only [List.foldlM_cons, bind, Except.bind] at ih ⊢
    cases hresolve : resolve name with
    | error fault => rfl
    | ok base =>
      simp only [hresolve, List.mem_append] at hopened
      simp only [hread base fun l hl => hopened l (.inl hl)]
      cases hbase : read base with
      | error fault => rfl
      | ok own =>
        simp only [hbase] at hopened
        exact ih (inherited ++ own) fun l hl => hopened l (.inr hl)

theorem readUpTo_eq (h : Alike out t t') (depth : Nat) (chain : List Location) (file : Location)
    (hread : ∀ l ∈ filesReadUpTo t place depth chain file, t.way place l.path ≠ .ok out) :
    readUpTo t' place depth chain file = readUpTo t place depth chain file := by
  induction depth generalizing chain file with
  | zero => rfl
  | succ depth ih =>
    rw [filesReadUpTo] at hread
    by_cases hchain : chain.contains file = true
    · have hcircular : ∀ files, readUpTo files place (depth + 1) chain file =
          .error (.configuration (.circularExtends (chain ++ [file]))) := by
        intro files
        simp only [readUpTo, bind, Except.bind]
        rw [if_pos hchain]
        rfl
      rw [hcircular, hcircular]
    · rw [if_neg hchain] at hread
      obtain ⟨hfile, hbases⟩ := List.forall_mem_cons.1 hread
      simp only [readUpTo, bind, Except.bind, if_neg hchain, projectMembers_eq h hfile,
        resolveExtends_eq h]
      cases hms : projectMembers t place file with
      | error fault => rfl
      | ok ms =>
        rw [hms] at hbases
        have hfold := foldlM_eq (fun base => ih (chain ++ [file]) base) {} hbases
        simp only [bind, Except.bind] at hfold
        simp only [hfold]

/-- A project file is read the same if no file that is opened for it leads to the file that
differs. -/
theorem read_eq (h : Alike out t t')
    (hread : ∀ l ∈ filesRead t place file, t.way place l.path ≠ .ok out) :
    read t' place file = read t place file := by
  rw [read, read, h.length_eq]
  exact readUpTo_eq h _ _ _ hread

theorem inputs_eq (m : Merged) (h : Alike out t t') (directory : Location)
    (outDir : Option String) :
    m.inputs t' place directory outDir = m.inputs t place directory outDir := by
  simp only [inputs, found, h.sameKinds.isDirectory_eq, Files.Globe.expand_eq h]

end Merged

/-- A project is the same if none of its files leads to the file that differs. -/
theorem Project.load_eq (h : Alike out t t')
    (hread : ∀ l ∈ Merged.filesRead t place (Files.resolve place file.path),
      t.way place l.path ≠ .ok out) :
    Project.load t' place file = Project.load t place file := by
  simp only [Project.load, Merged.read_eq h hread, Merged.inputs_eq _ h]

end DeclBundle.Configuration
