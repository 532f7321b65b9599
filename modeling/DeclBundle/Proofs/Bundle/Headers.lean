import DeclBundle.Proofs.Bundle.Outcome
set_option autoImplicit false

/-!
# Where the headers of a bundle stand

The block of a module ends in the terminator of the bundle, and so do references and the alias.  The
text of an ambient file ends as its author has left it.  If terminators end lines, the header of a
module therefore begins a line unless the last file before it that writes anything is an ambient one
that leaves its last line open.
-/

namespace DeclBundle

/-! ## Blocks -/

namespace Assembly

theorem moduleId_eq_ok_iff {a : Assembly} {file id : String} :
    a.moduleId file = .ok id ↔ ModuleId.ofFile a.base a.package file = .ok id := by
  unfold moduleId
  cases ModuleId.ofFile a.base a.package file <;> simp [Except.mapError]

/-- What the block of a declaration file is. -/
inductive HasBlock (a : Assembly) (file : SourceFile) : String → Prop where
  /-- the file is left out -/
  | excluded (h : a.isExcluded file.fileName = true) : HasBlock a file ""
  /-- the file is no external module, and stands as it is -/
  | ambient (h : a.isExcluded file.fileName = false)
      (htree : Declaration.isExternalModule (a.grammar file.text.toList) = false) :
      HasBlock a file file.text
  /-- the file is an external module, and is wrapped -/
  | wrapped {id content : String} (h : a.isExcluded file.fileName = false)
      (htree : Declaration.isExternalModule (a.grammar file.text.toList) = true)
      (hid : a.moduleId file.fileName = .ok id)
      (hcontent : Declaration.moduleContent id (Utf8.encode file.text.toList)
        (a.grammar file.text.toList) = .ok content) :
      HasBlock a file (a.format.moduleBlock id content)

/-- A block that has been made is that of a file left out, of an ambient file, or of a module. -/
theorem hasBlock_of_assemble {a : Assembly} {file : SourceFile} {block : String}
    (h : a.assemble file = .ok block) : HasBlock a file block := by
  unfold assemble at h
  cases hexcluded : a.isExcluded file.fileName with
  | true =>
    rw [hexcluded, if_pos rfl] at h
    obtain rfl := Except.ok.inj h
    exact .excluded hexcluded
  | false =>
    rw [hexcluded, if_neg Bool.false_ne_true] at h
    cases hid : a.moduleId file.fileName with
    | error e =>
      rw [hid] at h
      cases h
    | ok id =>
      rw [hid] at h
      simp only [bind, Except.bind] at h
      cases htree : Declaration.isExternalModule (a.grammar file.text.toList) with
      | false =>
        rw [htree, Bool.not_false, if_pos rfl] at h
        obtain rfl := Except.ok.inj h
        exact .ambient hexcluded htree
      | true =>
        rw [htree, Bool.not_true, if_neg Bool.false_ne_true] at h
        cases hcontent : Declaration.moduleContent id (Utf8.encode file.text.toList)
            (a.grammar file.text.toList) with
        | error e =>
          rw [hcontent] at h
          cases h
        | ok content =>
          rw [hcontent] at h
          obtain rfl := Except.ok.inj h
          exact .wrapped hexcluded htree hid hcontent

end Assembly

namespace Bundle

open DeclBundle.Configuration (Options)
open DeclBundle.Text

/-! ## Lines -/

/-- Whether what stands behind a text begins a line. -/
def BeginsLine (before : String) : Prop :=
  before = "" ∨ before.toList.getLast? = some '\n'

theorem beginsLine_empty : BeginsLine "" :=
  .inl rfl

/-- The last text that is not empty decides whether a line begins behind several texts. -/
theorem beginsLine_append (s t : String) :
    BeginsLine (s ++ t) ↔ if t = "" then BeginsLine s else BeginsLine t := by
  by_cases hempty : t = ""
  · rw [if_pos hempty, hempty, String.append_empty]
  · rw [if_neg hempty]
    have hlist : t.toList ≠ [] := fun h => hempty (String.toList_eq_nil_iff.1 h)
    have hlast : (s ++ t).toList.getLast? = t.toList.getLast? := by
      rw [String.toList_append, List.getLast?_append_of_ne_nil _ hlist]
    unfold BeginsLine
    rw [hlast]
    simp [hempty]

theorem beginsLine_append_right {t : String} (s : String)
    (h : t.toList.getLast? = some '\n') : BeginsLine (s ++ t) := by
  have hne : t ≠ "" := by
    rintro rfl
    cases h
  rw [beginsLine_append, if_neg hne]
  exact .inr h

/-! ## Files that leave a line open -/

/-- Whether a file stands in the bundle as it is, and leaves its last line open. -/
structure IsOpenAmbient (a : Assembly) (file : CompiledFile) (d : SourceFile) : Prop where
  hasDeclaration : file.declaration = some d
  not_excluded : a.isExcluded d.fileName = false
  ambient : Declaration.isExternalModule (a.grammar d.text.toList) = false
  leavesOpen : ¬ BeginsLine d.text

/-- Whether the last of the files that write anything is an ambient one that leaves its last line
open. -/
inductive EndsOpen (a : Assembly) : List CompiledFile → Prop where
  | last {file : CompiledFile} {d : SourceFile} {files : List CompiledFile}
      (h : IsOpenAmbient a file d) (hfiles : ∀ other ∈ files, Contributes a other "") :
      EndsOpen a (file :: files)
  | later {file : CompiledFile} {files : List CompiledFile} (h : EndsOpen a files) :
      EndsOpen a (file :: files)

/-- Terminators that end lines end the blocks of modules. -/
theorem beginsLine_moduleBlock {f : Format} (heol : f.eol.toList.getLast? = some '\n')
    (id content : String) : BeginsLine (f.moduleBlock id content) := by
  unfold Format.moduleBlock
  exact beginsLine_append_right _ heol

/-- A block leaves its last line open just if it is that of an ambient file that does so. -/
theorem Contributes.beginsLine_iff {a : Assembly} {file : CompiledFile} {block : String}
    (heol : a.format.eol.toList.getLast? = some '\n') (h : Contributes a file block) :
    ¬ BeginsLine block ↔ ∃ d, IsOpenAmbient a file d := by
  obtain ⟨-, hd, hblock⟩ := h
  rename_i d
  have hcases := Assembly.hasBlock_of_assemble hblock
  constructor
  · intro hopen
    cases hcases with
    | excluded => exact absurd beginsLine_empty hopen
    | ambient hexcluded htree => exact ⟨d, hd, hexcluded, htree, hopen⟩
    | wrapped => exact absurd (beginsLine_moduleBlock heol _ _) hopen
  · rintro ⟨other, hother, hexcluded, htree, hopen⟩
    rw [hd] at hother
    obtain rfl := Option.some.inj hother
    cases hcases with
    | excluded hcontra => exact absurd hcontra (by simp [hexcluded])
    | ambient => exact hopen
    | wrapped _ hcontra => exact absurd hcontra (by simp [htree])

/-- A file has at most one block. -/
theorem Contributes.unique {a : Assembly} {file : CompiledFile} {block block' : String}
    (h : Contributes a file block) (h' : Contributes a file block') : block = block' := by
  obtain ⟨-, hd, hblock⟩ := h
  obtain ⟨-, hd', hblock'⟩ := h'
  rw [hd] at hd'
  obtain rfl := Option.some.inj hd'
  rw [hblock] at hblock'
  exact Except.ok.inj hblock'

/-- Files write nothing just if the block of each is empty. -/
theorem join_eq_empty_iff {a : Assembly} {files : List CompiledFile} {blocks : List String}
    (h : List.Forall₂ (Contributes a) files blocks) :
    String.join blocks = "" ↔ ∀ file ∈ files, Contributes a file "" := by
  induction h with
  | nil => simp
  | @cons file block files blocks hblock _ ih =>
    have hfirst : block = "" ↔ Contributes a file "" := by
      constructor
      · rintro rfl
        exact hblock
      · exact hblock.unique
    rw [List.forall_mem_cons, ← ih, ← hfirst]
    simp

/-- Files leave a line open just if the last one that writes anything is an ambient one that does
so. -/
theorem beginsLine_join_iff {a : Assembly} {files : List CompiledFile} {blocks : List String}
    (heol : a.format.eol.toList.getLast? = some '\n')
    (h : List.Forall₂ (Contributes a) files blocks) :
    ¬ BeginsLine (String.join blocks) ↔ EndsOpen a files := by
  induction h with
  | nil =>
    refine iff_of_false (not_not.2 beginsLine_empty) ?_
    intro hopen
    cases hopen
  | @cons file block files blocks hblock hblocks ih =>
    have hcons : String.join (block :: blocks) = block ++ String.join blocks := by simp
    rw [hcons, beginsLine_append]
    have hopen := hblock.beginsLine_iff heol
    have hrest := join_eq_empty_iff hblocks
    split
    · rename_i hempty
      rw [hopen]
      constructor
      · rintro ⟨d, hd⟩
        exact .last hd (hrest.1 hempty)
      · intro hends
        cases hends with
        | last hd => exact ⟨_, hd⟩
        | later hlater => exact absurd (hempty ▸ beginsLine_empty) (ih.2 hlater)
    · rename_i hempty
      rw [ih]
      constructor
      · exact .later
      · intro hends
        cases hends with
        | last _ hfiles => exact absurd (hrest.2 hfiles) hempty
        | later hlater => exact hlater

/-! ## Headers -/

/-- The text with which the declaration of a module begins. -/
def headerText (id : String) : String :=
  "declare module '" ++ id

/-- Whether a file is an external module of the bundle, and with which identifier. -/
inductive Declares (a : Assembly) (file : CompiledFile) (id : String) : Prop where
  | intro {d : SourceFile} (hd : file.declaration = some d)
      (hexcluded : a.isExcluded d.fileName = false)
      (htree : Declaration.isExternalModule (a.grammar d.text.toList) = true)
      (hid : a.moduleId d.fileName = .ok id) : Declares a file id

/-- A header that a run writes, with the files that are written before it. -/
inductive Header (o : Options) (a : Assembly) (c : Compilation) :
    List CompiledFile → String → Prop where
  /-- the header of a file that is an external module -/
  | file {before after : List CompiledFile} {file : CompiledFile} {id : String}
      (hfiles : belonging a c = before ++ file :: after) (h : Declares a file id) :
      Header o a c before (headerText id)
  /-- the header of the alias for the main module -/
  | main {main : String} (h : o.main = some main) (hnonempty : main ≠ "") :
      Header o a c (belonging a c) (headerText o.name)

/-- References to files outside the bundle leave no line open. -/
theorem beginsLine_externText {eol : String} (heol : eol.toList.getLast? = some '\n')
    (paths : List String) : BeginsLine (externText eol paths) := by
  unfold externText
  induction paths with
  | nil => exact beginsLine_empty
  | cons path paths ih =>
    have hline : BeginsLine (externLine path eol) := beginsLine_append_right _ heol
    rw [List.map_cons, String.join_cons, beginsLine_append]
    split
    · exact hline
    · exact ih

theorem moduleBlock_eq (f : Format) (id content : String) :
    ∃ rest, f.moduleBlock id content = headerText id ++ rest := by
  refine ⟨"' \x7b" ++ f.eol ++ f.indent ++ f.reindent content ++ f.eol ++ "\x7d" ++ f.eol, ?_⟩
  unfold Format.moduleBlock headerText
  simp only [String.append_assoc]

theorem mainText_eq {o : Options} {main : String} (f : Format) (h : o.main = some main)
    (hnonempty : main ≠ "") : ∃ rest, mainText f o = headerText o.name ++ rest := by
  simp only [mainText, h, if_neg hnonempty, headerText, String.append_assoc]
  exact ⟨_, rfl⟩

/-- A relation between lists relates the parts of the first to parts of the second. -/
theorem exists_append_of_forall₂ {α β : Type} {R : α → β → Prop} {xs ys : List α} {zs : List β}
    (h : List.Forall₂ R (xs ++ ys) zs) :
    ∃ us vs, zs = us ++ vs ∧ List.Forall₂ R xs us ∧ List.Forall₂ R ys vs := by
  have hxs := List.forall₂_take xs.length h
  have hys := List.forall₂_drop xs.length h
  rw [List.take_left] at hxs
  rw [List.drop_left] at hys
  exact ⟨_, _, (List.take_append_drop xs.length zs).symm, hxs, hys⟩

/-- The blocks of the files before a header stand right before it. -/
theorem Header.exists_blocks {o : Options} {a : Assembly} {c : Compilation}
    {before : List CompiledFile} {header : String} {blocks : List String}
    (h : Header o a c before header)
    (hblocks : List.Forall₂ (Contributes a) (belonging a c) blocks) :
    ∃ front rest, List.Forall₂ (Contributes a) before front ∧
      String.join blocks ++ mainText a.format o = String.join front ++ header ++ rest := by
  cases h with
  | @file _ after file id hfiles hdeclares =>
    obtain ⟨hd, hexcluded, htree, hid⟩ := hdeclares
    rw [hfiles] at hblocks
    obtain ⟨front, back, rfl, hfront, hback⟩ := exists_append_of_forall₂ hblocks
    obtain ⟨block, others, hblock, -, rfl⟩ := List.forall₂_cons_left_iff.1 hback
    obtain ⟨-, hd', hassemble⟩ := hblock
    rw [hd] at hd'
    obtain rfl := Option.some.inj hd'
    cases Assembly.hasBlock_of_assemble hassemble with
    | excluded hcontra => exact absurd hcontra (by simp [hexcluded])
    | ambient _ hcontra => exact absurd hcontra (by simp [htree])
    | wrapped _ _ hid' hcontent =>
      rw [hid] at hid'
      obtain rfl := Except.ok.inj hid'
      obtain ⟨rest, hrest⟩ := moduleBlock_eq a.format id _
      refine ⟨front, rest ++ String.join others ++ mainText a.format o, hfront, ?_⟩
      rw [hrest, String.join_append, String.join_cons]
      simp only [String.append_assoc]
  | @main main hmain hnonempty =>
    obtain ⟨rest, hrest⟩ := mainText_eq a.format hmain hnonempty
    exact ⟨blocks, rest, hblocks, by rw [hrest, String.append_assoc]⟩

variable {grammar : Declaration.Grammar} {compiler : Compiler} {r : Run} {o : Options} {p : Plan}
variable {d next : Document} {c : Compilation}

/-- In a bundle whose terminators end lines, every header begins a line, unless the last file before
it that writes anything is an ambient one that leaves its last line open. -/
theorem generate_headers (h : Prepared grammar compiler r o p d c) (hd : d.IsReady)
    (hstart : BeginsLine d.contents) (heol : p.assembly.format.eol.toList.getLast? = some '\n')
    (hrun : observe (generate grammar compiler) r = (.ok (), some next)) :
    ∀ before header, Header o p.assembly c before header →
      ∃ blocks front rest, List.Forall₂ (Contributes p.assembly) before blocks ∧
        front = d.contents ++ externText p.assembly.format.eol o.externs ++ String.join blocks ∧
        next.contents = front ++ header ++ rest ∧
        (BeginsLine front ↔ ¬ EndsOpen p.assembly before) := by
  intro before header hheader
  obtain ⟨closed, hobserve, hcontents⟩ := h.observe_generate hd
  rw [hrun] at hobserve
  obtain ⟨hending, hclosed⟩ := Prod.mk.inj hobserve
  obtain rfl := Option.some.inj hclosed
  have hcontent := content_iff.2 ⟨hending, rfl⟩
  generalize String.join (compilationScript o p.assembly c).texts = text at hcontent hcontents
  cases hcontent with
  | @whole all _ hall =>
    obtain ⟨blocks, rest, hblocks, hjoin⟩ := hheader.exists_blocks hall
    refine ⟨blocks, _, rest, hblocks, rfl, ?_, ?_⟩
    · rw [hcontents, String.append_assoc, hjoin]
      simp only [String.append_assoc]
    · have hreferences :
          BeginsLine (d.contents ++ externText p.assembly.format.eol o.externs) := by
        rw [beginsLine_append]
        split
        · exact hstart
        · exact beginsLine_externText heol _
      rw [beginsLine_append, ← beginsLine_join_iff heol hblocks, not_not]
      split
      · rename_i hnothing
        rw [hnothing]
        exact iff_of_true hreferences beginsLine_empty
      · exact Iff.rfl

/-- An ambient file from the start. -/
def ambientFile (text : String) : CompiledFile where
  fileName := "/p/g.d.ts"
  declaration := some ⟨"/p/g.d.ts", text, true⟩

/-- An ambient file, and a module behind it. -/
def ambientThenModule (text : String) : Compilation where
  files := [ambientFile text, emittedFile "a" "export \x7b\x7d"]

theorem belonging_ambientThenModule (text : String) :
    belonging plainAssembly (ambientThenModule text) =
      [ambientFile text, emittedFile "a" "export \x7b\x7d"] := by
  have hambient : Belongs plainAssembly (ambientFile text) := by
    refine ⟨?_, List.not_mem_nil⟩
    change Path.isUnder (Path.normalize "/p/g.d.ts") "/p" = true
    decide
  have hmodule : Belongs plainAssembly (emittedFile "a" "export \x7b\x7d") :=
    ⟨by decide, List.not_mem_nil⟩
  unfold belonging ambientThenModule
  simp only [List.filter_cons, hambient, hmodule, decide_true, if_true, List.filter_nil]

/-- The header of the module stands behind the ambient file. -/
theorem header_ambientThenModule (text : String) :
    Header plainRun.options plainAssembly (ambientThenModule text) [ambientFile text]
      (headerText "lib/a") :=
  .file (belonging_ambientThenModule text)
    (.intro rfl (by decide) (by decide +kernel) (by decide +kernel))

/-- A run writes the ambient file and the module. -/
theorem observe_ambientThenModule (text : String)
    (h : plainAssembly.assemble ⟨"/p/g.d.ts", text, true⟩ = .ok text) :
    ∃ next, observe (generate plainGrammar fun _ => pure (ambientThenModule text)) plainRun =
        (.ok (), some next) ∧
      next.contents = "/// <reference path=\"e.d.ts\" />\n" ++ text ++ (headerText "lib/a" ++
        ("' \x7b\n\texport \x7b\x7d\n\x7d\n" ++
          mainText plainAssembly.format plainRun.options)) := by
  have hambient : Contributes plainAssembly (ambientFile text) text := by
    refine .intro ?_ rfl h
    rintro ⟨hpre, -⟩
    exact Bool.noConfusion (hpre _ rfl)
  have hmodule : Contributes plainAssembly (emittedFile "a" "export \x7b\x7d")
      (headerText "lib/a" ++ "' \x7b\n\texport \x7b\x7d\n\x7d\n") := by
    refine .intro ?_ rfl (by decide +kernel)
    rintro ⟨-, hreason⟩
    simp [emittedFile] at hreason
  have hblocks := List.Forall₂.cons hambient (.cons hmodule .nil)
  rw [← belonging_ambientThenModule] at hblocks
  have hcontent := Content.whole (o := plainRun.options) (c := ambientThenModule text) rfl hblocks
  obtain ⟨hending, htext⟩ := content_iff.1 hcontent
  obtain ⟨next, hobserve, hcontents⟩ :=
    (prepared_plainRun (ambientThenModule text)).observe_generate isReady_empty
  refine ⟨next, by rw [hobserve, hending], ?_⟩
  rw [hcontents, ← htext]
  simp only [String.join_cons, String.append_assoc]
  rfl

/-- The header of a module behind an ambient file that ends its last line begins a line. -/
theorem generate_headers_ended :
    ∃ next front rest,
      observe (generate plainGrammar fun _ => pure (ambientThenModule "var g\n")) plainRun =
        (.ok (), some next) ∧
      next.contents = front ++ headerText "lib/a" ++ rest ∧ BeginsLine front := by
  obtain ⟨next, hobserve, -⟩ := observe_ambientThenModule "var g\n" (by decide +kernel)
  obtain ⟨blocks, front, rest, -, -, hcontents, hline⟩ :=
    generate_headers (prepared_plainRun (ambientThenModule "var g\n")) isReady_empty
      beginsLine_empty (by decide) hobserve _ _ (header_ambientThenModule "var g\n")
  refine ⟨next, front, rest, hobserve, hcontents, hline.2 ?_⟩
  intro hopen
  cases hopen with
  | last hambient =>
    have hd := Option.some.inj hambient.hasDeclaration
    subst hd
    exact hambient.leavesOpen (.inr (by decide))
  | later hlater => cases hlater

/-- The header of a module behind an ambient file that leaves its last line open stands on that
line. -/
theorem generate_headers_open :
    plainAssembly.format.eol.toList.getLast? = some '\n' ∧
      Header plainRun.options plainAssembly (ambientThenModule "var g") [ambientFile "var g"]
        (headerText "lib/a") ∧
      ∃ next front rest,
        observe (generate plainGrammar fun _ => pure (ambientThenModule "var g")) plainRun =
          (.ok (), some next) ∧
        front = "/// <reference path=\"e.d.ts\" />\nvar g" ∧
        next.contents = front ++ headerText "lib/a" ++ rest ∧ ¬ BeginsLine front := by
  refine ⟨by decide, header_ambientThenModule "var g", ?_⟩
  obtain ⟨next, hobserve, hcontents⟩ :=
    observe_ambientThenModule "var g" (by decide +kernel)
  have hfront : "/// <reference path=\"e.d.ts\" />\n" ++ "var g" =
      "/// <reference path=\"e.d.ts\" />\nvar g" := rfl
  rw [hfront, ← String.append_assoc] at hcontents
  refine ⟨next, _, _, hobserve, rfl, hcontents, ?_⟩
  rintro (hempty | hlast)
  · exact absurd hempty (by decide)
  · exact absurd hlast (by decide)

end Bundle

end DeclBundle
