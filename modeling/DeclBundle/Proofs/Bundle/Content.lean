import DeclBundle.Proofs.Bundle.Script
import Mathlib.Data.List.Forall2
set_option autoImplicit false

/-!
# The content of a bundle

What a run writes, said without the run: the references to files outside the bundle, the blocks of
the files that belong to it in the order of the compiler, and the alias of the main module.  The
first file that stops the run ends the text where its block would begin, and its fault is the fault
of the run.  This is what the script of a compilation comes to (`content_iff`).
-/

namespace DeclBundle.Bundle

open DeclBundle.Configuration (Options)

/-! ## Files -/

/-- Whether a file belongs to the bundle: its canonical path lies under the base directory and is
none of those that are left out. -/
structure Belongs (a : Assembly) (file : CompiledFile) : Prop where
  isUnder : Path.isUnder (Path.normalize file.fileName) a.base = true
  not_excluded : Path.withSlashes (Path.normalize file.fileName) ∉ a.excludes

/-- Whether the compiler has failed on a file: it was no declaration from the start, and has been
skipped, complained about, or left without a declaration. -/
structure Failed (file : CompiledFile) : Prop where
  not_preDeclared : ∀ d, file.declaration = some d → d.isPreDeclared = false
  reason : file.emitSkipped = true ∨ file.diagnostics ≠ [] ∨ file.declaration = none

/-- Whether a file stops the run, and with which fault. -/
inductive Stops (a : Assembly) (file : CompiledFile) : Fault → Prop where
  /-- the compiler has failed on it -/
  | failed (h : Failed file) : Stops a file (.emission file.diagnostics)
  /-- its declaration has no block -/
  | unassembled {d : SourceFile} {e : AssemblyFault} (h : ¬ Failed file)
      (hd : file.declaration = some d) (he : a.assemble d = .error e) : Stops a file e.asFault

/-- Whether a file has a block, and which. -/
inductive Contributes (a : Assembly) (file : CompiledFile) : String → Prop where
  | intro {d : SourceFile} {block : String} (h : ¬ Failed file) (hd : file.declaration = some d)
      (hblock : a.assemble d = .ok block) : Contributes a file block

theorem isIncluded_iff (a : Assembly) (file : CompiledFile) :
    isIncluded a file = true ↔ Belongs a file := by
  unfold isIncluded Assembly.isExcluded
  simp only [Bool.and_eq_true, Bool.not_eq_true', List.contains_eq_mem, decide_eq_false_iff_not]
  constructor
  · intro h
    exact ⟨h.1, h.2⟩
  · intro h
    exact ⟨h.isUnder, h.not_excluded⟩

instance (a : Assembly) (file : CompiledFile) : Decidable (Belongs a file) :=
  decidable_of_iff _ (isIncluded_iff a file)

/-- The files of a compilation that belong to the bundle, in the order of the compiler. -/
def belonging (a : Assembly) (c : Compilation) : List CompiledFile :=
  c.files.filter (Belongs a ·)

/-- A file that the compiler has not failed on has a declaration. -/
theorem declarationOf_eq (file : CompiledFile) :
    (Failed file ∧ declarationOf file = .error (.emission file.diagnostics)) ∨
      (¬ Failed file ∧ ∃ d, file.declaration = some d ∧ declarationOf file = .ok d) := by
  unfold declarationOf
  cases hd : file.declaration with
  | none =>
    left
    refine ⟨⟨?_, .inr (.inr hd)⟩, rfl⟩
    intro d h
    rw [hd] at h
    cases h
  | some d =>
    cases hpre : d.isPreDeclared with
    | true =>
      right
      refine ⟨?_, d, rfl, by simp [hpre]⟩
      intro h
      rw [h.not_preDeclared d hd] at hpre
      cases hpre
    | false =>
      by_cases hreason : file.emitSkipped = true ∨ file.diagnostics ≠ []
      · left
        refine ⟨⟨?_, ?_⟩, ?_⟩
        · intro other hother
          rw [hd] at hother
          rwa [← Option.some.inj hother]
        · exact hreason.imp_right .inl
        · simp [hpre, hreason]
      · right
        refine ⟨?_, d, rfl, by simp_all⟩
        intro h
        rcases h.reason with hskipped | hdiagnostics | hnone
        · exact hreason (.inl hskipped)
        · exact hreason (.inr hdiagnostics)
        · rw [hd] at hnone
          cases hnone

/-- A file has a block or stops the run. -/
theorem contributes_or_stops (a : Assembly) (file : CompiledFile) :
    (∃ block, Contributes a file block) ∨ ∃ fault, Stops a file fault := by
  rcases declarationOf_eq file with ⟨hfailed, -⟩ | ⟨hfailed, d, hd, -⟩
  · exact .inr ⟨_, .failed hfailed⟩
  · cases hblock : a.assemble d with
    | error e => exact .inr ⟨_, .unassembled hfailed hd hblock⟩
    | ok block => exact .inl ⟨block, .intro hfailed hd hblock⟩

/-! ## The scripts of files -/

theorem fileScript_of_contributes {a : Assembly} {file : CompiledFile} {block : String}
    (hbelongs : Belongs a file) (h : Contributes a file block) :
    fileScript a file = blockScript (.ok block) := by
  obtain ⟨hfailed, hd, hblock⟩ := h
  unfold fileScript
  rw [if_pos ((isIncluded_iff a file).2 hbelongs)]
  rcases declarationOf_eq file with ⟨hcontra, -⟩ | ⟨-, d', hd', heq⟩
  · exact absurd hcontra hfailed
  · rw [hd] at hd'
    obtain rfl := Option.some.inj hd'
    rw [heq]
    exact congrArg blockScript hblock

theorem fileScript_of_stops {a : Assembly} {file : CompiledFile} {fault : Fault}
    (hbelongs : Belongs a file) (h : Stops a file fault) :
    fileScript a file = ⟨[], some fault⟩ := by
  unfold fileScript
  rw [if_pos ((isIncluded_iff a file).2 hbelongs)]
  rcases declarationOf_eq file with ⟨hfailed, heq⟩ | ⟨hfailed, d', hd', heq⟩
  · rw [heq]
    cases h with
    | failed => rfl
    | unassembled hcontra => exact absurd hfailed hcontra
  · rw [heq]
    cases h with
    | failed hcontra => exact absurd hcontra hfailed
    | unassembled _ hd he =>
      rw [hd] at hd'
      obtain rfl := Option.some.inj hd'
      exact congrArg blockScript he

/-- Files that do not belong to the bundle offer nothing. -/
theorem all_map_fileScript (a : Assembly) (files : List CompiledFile) :
    Script.all (files.map (fileScript a)) =
      Script.all ((files.filter (Belongs a ·)).map (fileScript a)) := by
  induction files with
  | nil => rfl
  | cons file files ih =>
    by_cases hbelongs : Belongs a file
    · simp only [List.map_cons, Script.all, ih, List.filter_cons, hbelongs, decide_true, if_true]
    · have hempty : fileScript a file = {} := by
        unfold fileScript
        rw [if_neg fun h => hbelongs ((isIncluded_iff a file).1 h)]
      simp [List.map_cons, Script.all, hempty, hbelongs, ih, Script.andThen]

/-- Files that have blocks offer these, but for the empty ones. -/
theorem all_of_contributes {a : Assembly} {files : List CompiledFile} {blocks : List String}
    (hbelongs : ∀ file ∈ files, Belongs a file)
    (h : List.Forall₂ (Contributes a) files blocks) :
    ∃ texts, Script.all (files.map (fileScript a)) = ⟨texts, none⟩ ∧
      String.join texts = String.join blocks := by
  induction h with
  | nil => exact ⟨[], rfl, rfl⟩
  | @cons file block files blocks hblock _ ih =>
    obtain ⟨texts, hall, hjoin⟩ := ih fun other hother =>
      hbelongs other (List.mem_cons_of_mem file hother)
    have hfirst := fileScript_of_contributes (hbelongs file (List.mem_cons_self ..)) hblock
    refine ⟨(if block = "" then [] else [block]) ++ texts, ?_, ?_⟩
    · rw [List.map_cons, Script.all, hfirst, hall]
      rfl
    · by_cases hempty : block = ""
      · simp [hempty, hjoin]
      · simp [hempty, hjoin]

theorem Script.all_append (ss ts : List Script) : all (ss ++ ts) = (all ss).andThen (all ts) := by
  induction ss with
  | nil => rfl
  | cons s ss ih =>
    rw [List.cons_append, all, all, ih]
    rcases s with ⟨texts, _ | fault⟩
    · rcases all ss with ⟨texts', _ | fault'⟩
      · simp [andThen]
      · rfl
    · rfl

/-- A file that stops the run ends the script, whatever comes behind it. -/
theorem all_of_stops {a : Assembly} {before after : List CompiledFile} {file : CompiledFile}
    {blocks : List String} {fault : Fault}
    (hbelongs : ∀ other ∈ before ++ file :: after, Belongs a other)
    (hblocks : List.Forall₂ (Contributes a) before blocks) (hstops : Stops a file fault) :
    ∃ texts, Script.all ((before ++ file :: after).map (fileScript a)) = ⟨texts, some fault⟩ ∧
      String.join texts = String.join blocks := by
  rw [List.forall_mem_append, List.forall_mem_cons] at hbelongs
  obtain ⟨hbefore, hfile, -⟩ := hbelongs
  obtain ⟨texts, hall, hjoin⟩ := all_of_contributes hbefore hblocks
  refine ⟨texts, ?_, hjoin⟩
  rw [List.map_append, List.map_cons, Script.all_append, hall, Script.all,
    fileScript_of_stops hfile hstops]
  simp [Script.andThen]

/-- Files have blocks up to the end, or up to one that stops the run. -/
theorem blocks_or_stops (a : Assembly) (files : List CompiledFile) :
    (∃ blocks, List.Forall₂ (Contributes a) files blocks) ∨
      ∃ before file after blocks fault, files = before ++ file :: after ∧
        List.Forall₂ (Contributes a) before blocks ∧ Stops a file fault := by
  induction files with
  | nil => exact .inl ⟨[], .nil⟩
  | cons file files ih =>
    rcases contributes_or_stops a file with ⟨block, hblock⟩ | ⟨fault, hstops⟩
    · rcases ih with ⟨blocks, hblocks⟩ | ⟨before, other, after, blocks, fault, rfl, hblocks, hstops⟩
      · exact .inl ⟨block :: blocks, .cons hblock hblocks⟩
      · exact .inr ⟨file :: before, other, after, block :: blocks, fault, rfl,
          .cons hblock hblocks, hstops⟩
    · exact .inr ⟨[], file, files, [], fault, rfl, .nil, hstops⟩

/-! ## The content -/

/-- The text of the alias for the main module, if there is one. -/
def mainText (f : Format) (o : Options) : String :=
  match o.main with
  | none => ""
  | some main =>
    if main = "" then ""
    else
      "declare module '" ++ o.name ++ "' \x7b" ++ f.eol ++
      f.indent ++ "import main = require('" ++ main ++ "');" ++ f.eol ++
      f.indent ++ "export = main;" ++ f.eol ++
      "\x7d" ++ f.eol

/-- The text of the references to files outside the bundle. -/
def externText (eol : String) (paths : List String) : String :=
  String.join (paths.map fun path => "/// <reference path=\"" ++ path ++ "\" />" ++ eol)

/-- How a run with a compilation ends, and the text that it writes. -/
inductive Content (o : Options) (a : Assembly) (c : Compilation) :
    Except Fault Unit → String → Prop where
  /-- a complaint that belongs to no file is the end before anything has been written -/
  | refused (h : c.diagnostics ≠ []) : Content o a c (.error (.emission c.diagnostics)) ""
  /-- every file that belongs to the bundle has a block -/
  | whole {blocks : List String} (h : c.diagnostics = [])
      (hblocks : List.Forall₂ (Contributes a) (belonging a c) blocks) :
      Content o a c (.ok ())
        (externText a.format.eol o.externs ++ String.join blocks ++ mainText a.format o)
  /-- the files before one that stops the run have blocks -/
  | stopped {before after : List CompiledFile} {file : CompiledFile} {blocks : List String}
      {fault : Fault} (h : c.diagnostics = [])
      (hfiles : belonging a c = before ++ file :: after)
      (hblocks : List.Forall₂ (Contributes a) before blocks) (hstops : Stops a file fault) :
      Content o a c (.error fault) (externText a.format.eol o.externs ++ String.join blocks)

theorem externScript_eq (eol : String) (paths : List String) :
    externScript eol paths = ⟨paths.map (externLine · eol), none⟩ := by
  induction paths with
  | nil => rfl
  | cons path paths ih =>
    unfold externScript at ih ⊢
    rw [List.map_cons, Script.all, ih]
    rfl

theorem join_externLines (eol : String) (paths : List String) :
    String.join (paths.map (externLine · eol)) = externText eol paths := rfl

theorem join_mainAlias {f : Format} {o : Options} {main : String}
    (h : nonempty? o.main = some main) : String.join (mainAlias f o.name main) = mainText f o := by
  obtain ⟨hmain, hnonempty⟩ := Option.filter_eq_some_iff.1 h
  have hne : main ≠ "" := by simpa using hnonempty
  simp only [mainText, hmain, if_neg hne, mainAlias]
  simp [String.append_assoc]

theorem mainText_of_none {f : Format} {o : Options} (h : nonempty? o.main = none) :
    mainText f o = "" := by
  unfold mainText
  cases hmain : o.main with
  | none => rfl
  | some main =>
    have hempty : main = "" := by simpa [nonempty?, hmain] using h
    exact if_pos hempty

theorem mainScript_spec (f : Format) (o : Options) :
    (mainScript f o).fault = none ∧ String.join (mainScript f o).texts = mainText f o := by
  unfold mainScript
  cases h : nonempty? o.main with
  | none => exact ⟨rfl, (mainText_of_none h).symm⟩
  | some main => exact ⟨rfl, join_mainAlias h⟩

/-- What a compilation without complaints of its own offers, if its files are all taken. -/
theorem compilationScript_of_all {o : Options} {a : Assembly} {c : Compilation}
    {texts : List String} {fault : Option Fault} (h : c.diagnostics = [])
    (hall : Script.all ((belonging a c).map (fileScript a)) = ⟨texts, fault⟩) :
    compilationScript o a c =
      ⟨o.externs.map (externLine · a.format.eol) ++
        (texts ++ if fault = none then (mainScript a.format o).texts else []), fault⟩ := by
  have hmain := (mainScript_spec a.format o).1
  unfold compilationScript
  rw [h, externScript_eq, all_map_fileScript]
  unfold belonging at hall
  rw [hall]
  cases fault with
  | none => simp [Script.andThen, hmain]
  | some e => simp [Script.andThen]

/-- A content is what the script of the compilation offers, and it ends as the script does. -/
theorem Content.eq_script {o : Options} {a : Assembly} {c : Compilation}
    {result : Except Fault Unit} {text : String} (h : Content o a c result text) :
    result = (compilationScript o a c).ending ∧
      text = String.join (compilationScript o a c).texts := by
  have hbelongs : ∀ file ∈ belonging a c, Belongs a file := by
    intro file hfile
    exact of_decide_eq_true (List.mem_filter.1 hfile).2
  cases h with
  | refused h =>
    unfold compilationScript
    simp [h, Script.ending]
  | whole h hblocks =>
    obtain ⟨texts, hall, hjoin⟩ := all_of_contributes hbelongs hblocks
    rw [compilationScript_of_all h hall]
    refine ⟨rfl, ?_⟩
    simp [← join_externLines, hjoin, (mainScript_spec a.format o).2, String.append_assoc]
  | stopped h hfiles hblocks hstops =>
    rw [hfiles] at hbelongs
    obtain ⟨texts, hall, hjoin⟩ := all_of_stops hbelongs hblocks hstops
    rw [← hfiles] at hall
    rw [compilationScript_of_all h hall]
    refine ⟨rfl, ?_⟩
    simp [← join_externLines, hjoin]

/-- Every compilation has a content. -/
theorem exists_content (o : Options) (a : Assembly) (c : Compilation) :
    ∃ result text, Content o a c result text := by
  by_cases h : c.diagnostics = []
  · rcases blocks_or_stops a (belonging a c) with
      ⟨blocks, hblocks⟩ | ⟨before, file, after, blocks, fault, hfiles, hblocks, hstops⟩
    · exact ⟨_, _, .whole h hblocks⟩
    · exact ⟨_, _, .stopped h hfiles hblocks hstops⟩
  · exact ⟨_, _, .refused h⟩

/-- The content of a compilation is what its script offers, and it ends as the script does. -/
theorem content_iff {o : Options} {a : Assembly} {c : Compilation} {result : Except Fault Unit}
    {text : String} :
    Content o a c result text ↔ result = (compilationScript o a c).ending ∧
      text = String.join (compilationScript o a c).texts := by
  constructor
  · exact Content.eq_script
  · rintro ⟨rfl, rfl⟩
    obtain ⟨result, text, hcontent⟩ := exists_content o a c
    obtain ⟨rfl, rfl⟩ := hcontent.eq_script
    exact hcontent

/-- A file that has a block does not stop the run. -/
theorem Contributes.not_stops {a : Assembly} {file : CompiledFile} {block : String} {fault : Fault}
    (h : Contributes a file block) : ¬ Stops a file fault := by
  obtain ⟨hfailed, hd, hblock⟩ := h
  intro hstops
  cases hstops with
  | failed hcontra => exact hfailed hcontra
  | unassembled _ hd' he =>
    rw [hd] at hd'
    obtain rfl := Option.some.inj hd'
    rw [hblock] at he
    cases he

/-- A run with a compilation ends well just if nothing stops it. -/
theorem content_ok_iff {o : Options} {a : Assembly} {c : Compilation} {result : Except Fault Unit}
    {text : String} (h : Content o a c result text) :
    result = .ok () ↔
      c.diagnostics = [] ∧ ∀ file ∈ belonging a c, ∀ fault, ¬ Stops a file fault := by
  cases h with
  | refused hdiagnostics => simp [hdiagnostics]
  | whole hdiagnostics hblocks =>
    have hnone : List.Forall₂ (fun file block =>
        (∀ fault, ¬ Stops a file fault) ∧ Contributes a file block) (belonging a c) _ :=
      hblocks.imp fun file block hblock => ⟨fun fault => hblock.not_stops, hblock⟩
    exact iff_of_true rfl ⟨hdiagnostics, ((List.forall₂_and_left _ _).1 hnone).1⟩
  | @stopped before after file blocks fault hdiagnostics hfiles hblocks hstops =>
    refine iff_of_false (by simp) ?_
    rintro ⟨-, hnone⟩
    exact hnone file (by simp [hfiles]) fault hstops

end DeclBundle.Bundle
