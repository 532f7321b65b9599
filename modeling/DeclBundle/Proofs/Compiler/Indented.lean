import DeclBundle.Proofs.Bundle.Answer
import DeclBundle.Proofs.Bundle.Headers
import DeclBundle.Proofs.Compiler.Compiled
import DeclBundle.Proofs.Declaration.Origin
import DeclBundle.Proofs.Declaration.Specifiers
import DeclBundle.Proofs.Format.Body
set_option autoImplicit false

/-!
# Indents in collected declarations

Declarations are read with a line feed for every line end, whatever stands in the file, so that no
carriage return is left in them.  A bundle whose terminator is a line feed finds the lines of their
modules and indents them.  A bundle whose terminator begins with a carriage return finds no line end
at all: only the first line of a body gets the indent, and the body is indented just if the author of
the declaration has indented the others (`isIndented_body_of_compile`).
-/

namespace DeclBundle.CommandCompiler

open Declaration Text Utf8

variable {c : CommandCompiler} {request : Request} {system after : System} {result : Compilation}

/-! ## Collected declarations -/

/-- A text that has been read holds no carriage return. -/
theorem carriage_not_mem_of_readText {files : Files.FileTree} {place : Files.Place} {path text : String}
    (h : readText files place path = .ok text) : '\r' ∉ text.toList := by
  obtain ⟨bytes, -, h⟩ := bind_eq_ok_iff.1 h
  obtain ⟨decoded, -, h⟩ := bind_eq_ok_iff.1 h
  obtain rfl := Except.ok.inj h
  rw [String.toList_ofList]
  exact not_mem_unifyNewlines decoded

/-- A declaration of a collected file holds no carriage return. -/
theorem Fate.carriage_not_mem {place : Files.Place} {files : Files.FileTree}
    {directory file : String} {found : Option SourceFile} {skipped : Bool}
    (h : Fate place files request directory file found skipped) :
    ∀ declaration ∈ found, '\r' ∉ declaration.text.toList := by
  cases h with
  | outside hunder => simp
  | preDeclared text hunder hsuffix htext => simpa using carriage_not_mem_of_readText htext
  | written text hunder hsuffix htext => simpa using carriage_not_mem_of_readText htext
  | skipped hunder hsuffix hprobe => simp

/-- No declaration that a run of the compiler gives holds a carriage return. -/
theorem carriage_not_mem_of_compile (h : c.compile request system = .ok result after) :
    ∀ file ∈ result.files, ∀ declaration ∈ file.declaration, '\r' ∉ declaration.text.toList := by
  obtain ⟨directory, before, files, output, -, hcompilation⟩ := exists_listing_of_compile h
  have hcollected := forall₂_of_compilation hcompilation
  generalize (Listing.parse request.base output).files = listed at hcollected
  generalize result.files = collected at hcollected ⊢
  induction hcollected with
  | nil => simp
  | cons hfile _ ih => exact List.forall_mem_cons.2 ⟨(collect_cases hfile).2.2.carriage_not_mem, ih⟩

/-! ## Blocks of collected declarations -/

variable {a : Assembly} {file : CompiledFile} {declaration : SourceFile} {block : String}

/-- The block of a collected declaration that is an external module, for an indent without line
breaks.  If lines end in a line feed, every line of its body that has text on it begins with the
indent.  If they end in a carriage return and a line feed, and the identifier of the module holds no
carriage return, then nothing is indented but the first line: every line begins with the indent just
if all lines of the content but the first have begun with it. -/
theorem isIndented_body_of_compile (h : c.compile request system = .ok result after)
    (hfile : file ∈ result.files) (hdeclaration : file.declaration = some declaration)
    (hincluded : a.isExcluded declaration.fileName = false)
    (hmodule : isExternalModule (a.grammar declaration.text.toList) = true)
    (hblock : a.assemble declaration = .ok block)
    (hindent : ∀ x ∈ a.format.indent.toList, Format.isLineBreak x = false) :
    ∃ id content, a.moduleId declaration.fileName = .ok id ∧
      moduleContent id (encode declaration.text.toList) (a.grammar declaration.text.toList) =
        .ok content ∧
      block.toList = ("declare module '" ++ id ++ "' \x7b" ++ a.format.eol).toList ++
        a.format.body content ++ (a.format.eol ++ "\x7d" ++ a.format.eol).toList ∧
      (a.format.eol = "\n" → IsIndented a.format.indent.toList (a.format.body content)) ∧
      (a.format.eol = "\r\n" → '\r' ∉ id.toList →
        a.format.body content = a.format.indent.toList ++ content.toList ∧
        (IsIndented a.format.indent.toList (a.format.body content) ↔
          ∀ line ∈ (splitAtChar '\n' content.toList).tail, HasText line →
            a.format.indent.toList <+: line)) := by
  have htext : '\r' ∉ declaration.text.toList :=
    carriage_not_mem_of_compile h file hfile declaration hdeclaration
  have hfeed : '\n' ∉ a.format.indent.toList := fun hmem => by
    have hbreak := hindent '\n' hmem
    cases hbreak
  cases Assembly.hasBlock_of_assemble hblock with
  | excluded hexcluded => simp [hincluded] at hexcluded
  | ambient _ hambient => simp [hmodule] at hambient
  | @wrapped id content _ _ hid hcontent =>
    refine ⟨id, content, hid, hcontent, Format.toList_moduleBlock_body _ _ _, fun heol => ?_,
      fun heol hclean => ?_⟩
    · exact Format.isIndented_body_feed heol hfeed content
    · exact Format.isIndented_body_carriage heol hfeed
        (carriage_not_mem_moduleContent hclean htext hcontent)

/-! ## Two declarations -/

/-- The text of a file with two declarations, each line of which ends in a terminator. -/
def declaredPair (eol : String) : String :=
  "export declare const a: number;" ++ eol ++ "export declare const b: number;" ++ eol

/-- A compiler that writes two declarations for a source file, with a carriage return before every
line feed. -/
def carriageCompiler : CommandCompiler where
  runner _ files :=
    (.ok "/p/a.ts\n", files.put ["tmp", "dtsbundle-0", "a.d.ts"]
      (.file (encode (declaredPair "\r\n").toList)))

/-- A request for the source file. -/
def carriageRequest : Request :=
  ⟨["/p/a.ts"], { base := "/p" }⟩

/-- A system with a directory for temporary use. -/
def carriageSystem : System where
  place := { workingDirectory := "/", home := "/" }
  files := ⟨[(["tmp"], .directory)]⟩

/-- The declaration that is collected. -/
def collectedPair : SourceFile :=
  ⟨"/p/a.d.ts", declaredPair "\n", false⟩

/-- What the compiler answers. -/
def pairResult : Compilation where
  files := [{ fileName := "/p/a.ts", declaration := some collectedPair }]

/-- The tree of one of the two declarations, from where it begins. -/
def pairStatement (start : Nat) : Node :=
  .node { type := "export_statement" } ⟨start, start + 31⟩
    [.node { type := "export", isNamed := false } ⟨start, start + 6⟩ [],
      .node { type := "ambient_declaration" } ⟨start + 7, start + 31⟩
        [.node { type := "declare", isNamed := false } ⟨start + 7, start + 14⟩ [],
          .node { type := "lexical_declaration" } ⟨start + 15, start + 31⟩ []]]

/-- The tree of the file. -/
def pairTree : Node :=
  .node { type := "program" } ⟨0, 64⟩ [pairStatement 0, pairStatement 32]

/-- The blocks of a bundle with a line terminator. -/
def pairAssembly (eol : String) : Assembly where
  grammar _ := pairTree
  base := "/p"
  package := "lib"
  format := { eol, indent := "  " }

/-- The content of the module. -/
def pairContent : String :=
  "export  const a: number;\nexport  const b: number;\n"

theorem compile_pair :
    ∃ after, carriageCompiler.compile carriageRequest carriageSystem = .ok pairResult after :=
  Bundle.exists_of_answer (by decide +kernel)

theorem moduleContent_pair : isExternalModule pairTree = true ∧
    moduleContent "lib/a" (encode collectedPair.text.toList) pairTree = .ok pairContent := by
  decide +kernel

/-- With a line feed as the terminator, both lines of the body are indented. -/
theorem isIndented_body_pair :
    (pairAssembly "\n").assemble collectedPair =
        .ok ((pairAssembly "\n").format.moduleBlock "lib/a" pairContent) ∧
      IsIndented "  ".toList ((pairAssembly "\n").format.body pairContent) := by
  obtain ⟨after, hcompile⟩ := compile_pair
  obtain ⟨hmodule, hcontent⟩ := moduleContent_pair
  have hincluded : (pairAssembly "\n").isExcluded collectedPair.fileName = false := by decide
  have hid : (pairAssembly "\n").moduleId collectedPair.fileName = .ok "lib/a" := by decide
  have hblock := assemble_of_moduleContent hincluded hid hmodule hcontent
  have hindent : ∀ x ∈ (pairAssembly "\n").format.indent.toList, Format.isLineBreak x = false := by
    intro x hx
    obtain rfl : x = ' ' := by simpa [pairAssembly] using hx
    decide
  obtain ⟨id, content, hid', hcontent', -, hfeed, -⟩ := isIndented_body_of_compile hcompile
    List.mem_cons_self rfl hincluded hmodule hblock hindent
  obtain rfl := Except.ok.inj (hid.symm.trans hid')
  obtain rfl := Except.ok.inj (hcontent.symm.trans hcontent')
  exact ⟨hblock, hfeed rfl⟩

/-- With a carriage return and a line feed as the terminator, the second line of the body is not
indented, though the lines of the file end so. -/
theorem not_isIndented_body_pair :
    (∃ after, carriageCompiler.compile carriageRequest carriageSystem = .ok pairResult after) ∧
      (pairAssembly "\r\n").isExcluded collectedPair.fileName = false ∧
      isExternalModule pairTree = true ∧
      (pairAssembly "\r\n").assemble collectedPair =
        .ok ((pairAssembly "\r\n").format.moduleBlock "lib/a" pairContent) ∧
      (pairAssembly "\r\n").format.moduleBlock "lib/a" pairContent =
        "declare module 'lib/a' \x7b\r\n  export  const a: number;\nexport  const b: number;\n" ++
          "\r\n\x7d\r\n" ∧
      ¬ IsIndented "  ".toList ((pairAssembly "\r\n").format.body pairContent) := by
  obtain ⟨hmodule, hcontent⟩ := moduleContent_pair
  have hincluded : (pairAssembly "\r\n").isExcluded collectedPair.fileName = false := by decide
  have hid : (pairAssembly "\r\n").moduleId collectedPair.fileName = .ok "lib/a" := by decide
  exact ⟨compile_pair, hincluded, hmodule, assemble_of_moduleContent hincluded hid hmodule hcontent,
    by decide +kernel, by decide +kernel⟩

end DeclBundle.CommandCompiler
